import DevHarness.Broker.SocketCalls
/-!
# SocketRefinement — over connections the calls do what `RoutedCalls` says (`broker/client.py`, `broker/daemon.py`)

A request handled, one at a time, is the step of `RoutedCalls`; asking, reading and giving up are none.  Whether the
reply to a request just handled will be read is settled later, so each state is matched for both outcomes (`match_step`),
and a later step chooses one of the two.  From that come the slots and the kill switch over connections: a call granted
before the switch tripped may still reach its provider after, no other does.
-/
namespace DevHarness
namespace Broker

open Lib

/-! ## A state seen from the calls -/

/-- **A call as `RoutedCalls` has it**, its reply in flight read in the end or not. -/
def SocketCall.routed (py : Builtins) (log : SocketLog) (read : Bool) (i : ℕ) (c : SocketCall) : RoutedCall where
  provider := c.provider
  model := c.model
  phase := match c.phase with
    | .reserving =>
      if read then afterReply py (reserveReply log i)
      else .finished (.unreserved ((reserveReply log i).any BrokerMessage.granted))
    | .unreserved => .finished (.unreserved ((reserveReply log i).any BrokerMessage.granted))
    | .running phase => phase
    | .settling phase => if hasSettled log i then .finished (settledEnd (read && replied log i) phase) else phase
    | .unsettled phase => if hasSettled log i then .finished (settledEnd false phase) else phase

namespace SocketSystem

/-- The call of a place; a place without one is never asked for. -/
def call (s : SocketSystem) (i : ℕ) : SocketCall := (s.calls[i]?).getD ⟨0, .ollama, "", .unreserved⟩

/-- **The state as `RoutedCalls` has it**, with `read` for the replies in flight. -/
def routed (py : Builtins) (read : ℕ → Bool) (s : SocketSystem) : RoutedSystem where
  daemon := s.net.server
  issued := s.issued
  calls := (reservedOrder s.net.log).map (fun i => (s.call i).routed py s.net.log (read i) i)

variable {py : Builtins} {s s' : SocketSystem}

/-! ## A step is matched -/

/-- What `RoutedCalls` sees of a call's request depends on its own reply only. -/
theorem routed_congr {read read' : ℕ → Bool} (hserver : s'.net.server = s.net.server) (hissued : s'.issued = s.issued)
    (hlog : s'.net.log = s.net.log)
    (hcall : ∀ i ∈ reservedOrder s.net.log,
      (s'.call i).routed py s.net.log (read' i) i = (s.call i).routed py s.net.log (read i) i) :
    routed py read' s' = routed py read s := by
  unfold routed
  rw [hserver, hissued, hlog]
  congr 1
  exact List.map_congr_left hcall

theorem call_eq {i : ℕ} {c : SocketCall} (hi : s.calls[i]? = some c) : s.call i = c := by
  rw [call, hi]
  rfl

/-- Two views of the calls reserved that differ at one. -/
theorem map_eq_set {order : List ℕ} (hnodup : order.Nodup) {i : ℕ} (hi : i ∈ order) {f g : ℕ → RoutedCall}
    (h : ∀ j ∈ order, j ≠ i → g j = f j) : order.map g = (order.map f).set (order.idxOf i) (g i) := by
  have hupdate : order.map g = order.map (Function.update f i (g i)) := List.map_congr_left (fun j hj => by
    by_cases hji : j = i
    · rw [hji, Function.update_self]
    · rw [Function.update_of_ne hji, h j hj hji])
  rw [hupdate, hnodup.map_update, if_pos hi]

variable (py) in
theorem routed_getElem? (read : ℕ → Bool) {i : ℕ} (hi : i ∈ reservedOrder s.net.log) :
    (routed py read s).calls[(reservedOrder s.net.log).idxOf i]? =
      some ((s.call i).routed py s.net.log (read i) i) := by
  rw [routed, List.getElem?_map, List.getElem?_idxOf hi]
  rfl

theorem begin_same {k : ℕ} {q : SocketRequest} {sent : Bool} {net : Rpc.Net BrokerDaemon SocketRequest BrokerMessage}
    (h : s.begin k q sent = some net) : net.server = s.net.server ∧ net.log = s.net.log := by
  obtain ⟨-, ⟨-, hask⟩ | ⟨-, rfl⟩⟩ := begin_cases h
  · obtain ⟨-, hserver, hlog, -⟩ := Rpc.Net.ask_spec hask
    exact ⟨hserver, hlog⟩
  · exact ⟨rfl, rfl⟩

theorem match_reserve (h : Wired s) {k : ℕ} {provider : ProviderId} {model : String} {sent : Bool}
    (hstep : step py s (.reserve k provider model sent) = some s') (read : ℕ → Bool) :
    routed py read s' = routed py read s := by
  simp only [step] at hstep
  obtain ⟨net, hbegin, rfl⟩ := Option.map_eq_some_iff.1 hstep
  have hsame := begin_same hbegin
  refine routed_congr hsame.1 rfl hsame.2 (fun i hi => ?_)
  rw [call, call, List.getElem?_append_left (h.lt_of_mem hi)]

theorem match_settle (h : Wired s) {i : ℕ} {sent : Bool} (hstep : step py s (.settle i sent) = some s')
    (read : ℕ → Bool) : routed py read s' = routed py read s := by
  simp only [step] at hstep
  split at hstep
  swap
  · cases hstep
  rename_i k provider model phase hi
  split at hstep
  · cases hstep
  rename_i msg hmsg
  obtain ⟨net, hbegin, rfl⟩ := Option.map_eq_some_iff.1 hstep
  have hsame := begin_same hbegin
  have hopen : hasSettled s.net.log i = false := Bool.eq_false_iff.2 (fun hsettled => by
    obtain ⟨x, hx, hres, hcall⟩ := hasSettled_eq_true_iff.1 hsettled
    have hfin := ((h.fits i _ hi).2 x.1 (h.asked_of_mem hx) hcall hres).1
    rw [isOpen_of_settleMsg hmsg] at hfin
    cases hfin)
  refine routed_congr hsame.1 rfl hsame.2 (fun j hj => ?_)
  by_cases hji : j = i
  · rw [hji, call_eq (s := { s with net, calls := _ })
      (List.getElem?_set_self (List.getElem?_eq_some_iff.1 hi).1), call_eq hi]
    cases sent <;> simp [SocketCall.routed, hopen]
  · rw [call, call, List.getElem?_set_ne (Ne.symm hji)]

/-- **One call moved on** in both. -/
theorem routed_setCall (h : Wired s) {i : ℕ} {c c' : SocketCall} (hi : s.calls[i]? = some c)
    (hmem : i ∈ reservedOrder s.net.log) (read : ℕ → Bool) :
    routed py read { s with calls := s.calls.set i c' } = { routed py read s with
      calls := (routed py read s).calls.set ((reservedOrder s.net.log).idxOf i)
        (c'.routed py s.net.log (read i) i) } := by
  have hself : call { s with calls := s.calls.set i c' } i = c' :=
    call_eq (List.getElem?_set_self (List.getElem?_eq_some_iff.1 hi).1)
  have hset := map_eq_set (nodup_reservedOrder h.distinct_log) hmem
    (f := fun j => (s.call j).routed py s.net.log (read j) j)
    (g := fun j => (call { s with calls := s.calls.set i c' } j).routed py s.net.log (read j) j) (fun j _ hji => by
      rw [call, call, List.getElem?_set_ne (Ne.symm hji)])
  rw [hself] at hset
  unfold routed
  rw [hset]

theorem match_provider (h : Wired s) {i : ℕ} {result : Call} (hstep : step py s (.provider i result) = some s')
    (read : ℕ → Bool) : ∃ a, RoutedSystem.step py (routed py read s) a = some (routed py read s') := by
  simp only [step] at hstep
  split at hstep
  · rename_i k provider model rid hi
    cases hstep
    have hmem := (h.fits i _ hi).1
    have hget := routed_getElem? py read hmem
    rw [call_eq hi] at hget
    refine ⟨.provider ((reservedOrder s.net.log).idxOf i) result, ?_⟩
    rw [routed_setCall h hi hmem]
    unfold RoutedSystem.step
    dsimp only
    rw [hget]
    cases result <;> rfl
  · cases hstep

/-! ### A request handled -/

theorem routed_snoc_of_ne {log : SocketLog} {x : SocketRequest × Option BrokerMessage} {i : ℕ} (c : SocketCall)
    (read : Bool) (hmem : i ∈ reservedOrder log) (h : x.1.reserves = true ∨ x.1.call ≠ i) :
    c.routed py (log ++ [x]) read i = c.routed py log read i := by
  unfold SocketCall.routed
  rw [reserveReply_snoc_of_mem hmem, hasSettled_snoc_of_ne h, replied_snoc_of_ne h]

theorem afterReserve_replied (d : BrokerDaemon) (msg : BrokerMessage) (uuid : String) (now : ℚ) :
    RoutedSystem.afterReserve py d msg uuid now .replied =
      afterReply py (d.handleMessage py msg uuid now).1.toOption := by
  unfold RoutedSystem.afterReserve BrokerClient.request afterReply
  cases (d.handleMessage py msg uuid now).1.toOption <;> rfl

theorem afterReserve_replyLost (d : BrokerDaemon) (msg : BrokerMessage) (uuid : String) (now : ℚ) :
    RoutedSystem.afterReserve py d msg uuid now .replyLost =
      .finished (.unreserved ((d.handleMessage py msg uuid now).1.toOption.any BrokerMessage.granted)) := by
  unfold RoutedSystem.afterReserve BrokerClient.request
  rfl

/-- What is handled has not been before. -/
theorem not_handled {log : SocketLog} {q : SocketRequest} {r : Option BrokerMessage}
    (hdistinct : Distinct (log ++ [(q, r)])) {x : SocketRequest × Option BrokerMessage} (hx : x ∈ log)
    (hcall : x.1.call = q.call) : x.1.reserves ≠ q.reserves := by
  intro hres
  unfold Distinct at hdistinct
  rw [List.map_append, List.nodup_append] at hdistinct
  exact hdistinct.2.2 _ (List.mem_map_of_mem hx) _ (List.mem_singleton.2 rfl) (Prod.ext hcall hres)

theorem match_serve_reserve (h : Wired s) {q : SocketRequest} {net : Rpc.Net BrokerDaemon SocketRequest BrokerMessage}
    {uuid : String} {now : ℚ} (hfresh : uuid ∉ s.issued)
    (hlog : net.log = s.net.log ++ [(q, (handle py s.net.server q (uuid, now)).1)])
    (hserver : net.server = (handle py s.net.server q (uuid, now)).2) (hq : q ∈ s.net.asked)
    (hdistinct : Distinct net.log) (hres : q.reserves = true) (read : ℕ → Bool) :
    ∃ a, RoutedSystem.step py (routed py read s) a =
      some (routed py read { s with net, issued := s.issued ++ [uuid] }) := by
  rw [hlog] at hdistinct
  obtain ⟨c, hc, hmsg⟩ := h.made q hq
  have hnew : q.call ∉ reservedOrder s.net.log := fun hmem => by
    obtain ⟨x, hx, hxres, hxcall⟩ := mem_reservedOrder.1 hmem
    exact not_handled hdistinct hx hxcall (by rw [hxres, hres])
  have hfits := h.fits q.call c hc
  have hreply : reserveReply (s.net.log ++ [(q, (handle py s.net.server q (uuid, now)).1)]) q.call =
      (handle py s.net.server q (uuid, now)).1 := reserveReply_snoc_self hnew hres rfl
  have hphase : c.phase = .reserving ∨ c.phase = .unreserved := by
    unfold Fits at hfits
    cases hphase : c.phase with
    | reserving => exact Or.inl rfl
    | unreserved => exact Or.inr rfl
    | _ =>
      rw [hphase] at hfits
      exact absurd hfits.1 hnew
  obtain ⟨link, hafter, hrest⟩ : ∃ link, (c.routed py (s.net.log ++ [(q, (handle py s.net.server q (uuid, now)).1)])
      (read q.call) q.call).phase = RoutedSystem.afterReserve py s.net.server q.msg uuid now link ∧
        (BrokerClient.request py s.net.server q.msg uuid now link).2 = (handle py s.net.server q (uuid, now)).2 := by
    simp only [SocketCall.routed, hreply]
    rcases hphase with hphase | hphase <;> rw [hphase]
    · cases read q.call with
      | true => exact ⟨.replied, (afterReserve_replied _ _ _ _).symm, rfl⟩
      | false => exact ⟨.replyLost, (afterReserve_replyLost _ _ _ _).symm, rfl⟩
    · exact ⟨.replyLost, (afterReserve_replyLost _ _ _ _).symm, rfl⟩
  refine ⟨.reserve c.provider c.model uuid now link, ?_⟩
  have hstep : RoutedSystem.step py (routed py read s) (.reserve c.provider c.model uuid now link) =
      some ⟨(BrokerClient.request py s.net.server q.msg uuid now link).2, s.issued ++ [uuid],
        (routed py read s).calls ++ [⟨c.provider, c.model,
          RoutedSystem.afterReserve py s.net.server q.msg uuid now link⟩]⟩ := by
    rw [hmsg hres]
    exact if_neg hfresh
  rw [hstep, hrest, ← hafter, Option.some.injEq]
  unfold routed
  rw [hserver, hlog, reservedOrder_snoc, if_pos hres, List.map_append, List.map_singleton]
  congr 1
  refine congr (congrArg _ (List.map_congr_left (fun j hj => ?_))) ?_
  · exact (routed_snoc_of_ne _ _ hj (Or.inl hres)).symm
  · rw [show call { s with net := net, issued := s.issued ++ [uuid] } q.call = c from call_eq hc]
    rfl

/-- A COMMIT or RELEASE makes no use of an id. -/
theorem handleMessage_settle {provider : ProviderId} {model : String} {phase : CallPhase} {msg : BrokerMessage}
    (h : settleMsg provider model phase = some msg) (d : BrokerDaemon) (uuid : String) (now : ℚ) :
    d.handleMessage py msg uuid now = d.handleMessage py msg "" now := by
  cases phase with
  | returned rid usage =>
    cases h
    rw [BrokerDaemon.handleMessage_commit rfl, BrokerDaemon.handleMessage_commit rfl]
  | raised rid =>
    cases h
    rw [BrokerDaemon.handleMessage_release rfl, BrokerDaemon.handleMessage_release rfl]
  | _ => cases h

variable (py) in
/-- **A settling request in `RoutedCalls`**, its reply read or lost. -/
theorem step_settle {t : RoutedSystem} {j : ℕ} {provider : ProviderId} {model : String} {phase : CallPhase}
    {msg : BrokerMessage} (hget : t.calls[j]? = some ⟨provider, model, phase⟩)
    (hmsg : settleMsg provider model phase = some msg) (now : ℚ) (read : Bool) :
    ∃ a, RoutedSystem.step py t a = some { t with
      daemon := (t.daemon.handleMessage py msg "" now).2
      calls := t.calls.set j ⟨provider, model,
        .finished (settledEnd (read && (t.daemon.handleMessage py msg "" now).1.toOption.isSome) phase)⟩ } := by
  cases phase with
  | returned rid usage =>
    cases hmsg
    cases read with
    | true =>
      refine ⟨.commit j now .replied, ?_⟩
      simp only [RoutedSystem.step, hget, RoutedSystem.settle, BrokerClient.request, settledEnd, Bool.true_and]
      rfl
    | false =>
      refine ⟨.commit j now .replyLost, ?_⟩
      simp only [RoutedSystem.step, hget, RoutedSystem.settle, BrokerClient.request, settledEnd, Bool.false_and]
      rfl
  | raised rid =>
    cases hmsg
    cases read with
    | true =>
      refine ⟨.release j now .replied, ?_⟩
      simp only [RoutedSystem.step, hget, RoutedSystem.settle, BrokerClient.request, settledEnd, Bool.true_and]
      rfl
    | false =>
      refine ⟨.release j now .replyLost, ?_⟩
      simp only [RoutedSystem.step, hget, RoutedSystem.settle, BrokerClient.request, settledEnd, Bool.false_and]
      rfl
  | _ => cases hmsg

theorem match_serve_settle (h : Wired s) {q : SocketRequest} {net : Rpc.Net BrokerDaemon SocketRequest BrokerMessage}
    {uuid : String} {now : ℚ} (hlog : net.log = s.net.log ++ [(q, (handle py s.net.server q (uuid, now)).1)])
    (hserver : net.server = (handle py s.net.server q (uuid, now)).2) (hq : q ∈ s.net.asked)
    (hdistinct : Distinct net.log) (hres : q.reserves = false) (read : ℕ → Bool) :
    ∃ a, RoutedSystem.step py (routed py read s) a = some (routed py read { s with net }) := by
  rw [hlog] at hdistinct
  obtain ⟨c, hc, -⟩ := h.made q hq
  have hopen : hasSettled s.net.log q.call = false := Bool.eq_false_iff.2 (fun hsettled => by
    obtain ⟨x, hx, hxres, hxcall⟩ := hasSettled_eq_true_iff.1 hsettled
    exact not_handled hdistinct hx hxcall (by rw [hxres, hres]))
  -- the call is blocked in the request, or was left by it
  obtain ⟨phase, hmem, hmsg, hphase⟩ : ∃ phase, q.call ∈ reservedOrder s.net.log ∧
      settleMsg c.provider c.model phase = some q.msg ∧ (c.phase = .settling phase ∨ c.phase = .unsettled phase) := by
    have hfits := h.fits q.call c hc
    unfold Fits at hfits
    cases hphase : c.phase with
    | running phase =>
      rw [hphase] at hfits
      rw [(hfits.2 q hq rfl hres).2] at hopen
      cases hopen
    | settling phase =>
      rw [hphase] at hfits
      obtain ⟨hmem, msg, hmsg, hall⟩ := hfits
      exact ⟨phase, hmem, by rw [hall q hq rfl hres, hmsg], Or.inl rfl⟩
    | unsettled phase =>
      rw [hphase] at hfits
      obtain ⟨hmem, msg, hmsg, hall⟩ := hfits
      exact ⟨phase, hmem, by rw [hall q hq rfl hres, hmsg], Or.inr rfl⟩
    | _ =>
      rw [hphase] at hfits
      rw [hfits q hq rfl] at hres
      cases hres
  have hget := routed_getElem? py read hmem
  have hbefore : c.routed py s.net.log (read q.call) q.call = ⟨c.provider, c.model, phase⟩ := by
    rcases hphase with hphase | hphase <;> simp [SocketCall.routed, hphase, hopen]
  rw [call_eq hc, hbefore] at hget
  have hsettled : hasSettled (s.net.log ++ [(q, (handle py s.net.server q (uuid, now)).1)]) q.call = true :=
    hasSettled_eq_true_iff.2 ⟨_, List.mem_append_right _ (List.mem_singleton.2 rfl), hres, rfl⟩
  have hreplied : replied (s.net.log ++ [(q, (handle py s.net.server q (uuid, now)).1)]) q.call =
      (s.net.server.handleMessage py q.msg "" now).1.toOption.isSome := by
    rw [replied, List.any_append, ← replied, replied_eq_false hopen, List.any_cons, hres, handle,
      handleMessage_settle hmsg]
    simp
  obtain ⟨b, hafter⟩ : ∃ b, c.routed py (s.net.log ++ [(q, (handle py s.net.server q (uuid, now)).1)]) (read q.call)
      q.call = ⟨c.provider, c.model, .finished (settledEnd
        (b && (s.net.server.handleMessage py q.msg "" now).1.toOption.isSome) phase)⟩ := by
    rcases hphase with hphase | hphase
    · exact ⟨read q.call, by simp only [SocketCall.routed, hphase, hsettled, hreplied, if_true]⟩
    · exact ⟨false, by simp only [SocketCall.routed, hphase, hsettled, if_true, Bool.false_and]⟩
  obtain ⟨a, ha⟩ := step_settle py hget hmsg now b
  refine ⟨a, ha.trans (congrArg some ?_)⟩
  have hset := map_eq_set (nodup_reservedOrder h.distinct_log) hmem
    (f := fun j => (s.call j).routed py s.net.log (read j) j)
    (g := fun j => (s.call j).routed py (s.net.log ++ [(q, (handle py s.net.server q (uuid, now)).1)]) (read j) j)
    (fun j hj hji => routed_snoc_of_ne _ _ hj (Or.inr (Ne.symm hji)))
  rw [call_eq hc, hafter] at hset
  have horder : reservedOrder net.log = reservedOrder s.net.log := by
    rw [hlog, reservedOrder_snoc, hres]
    exact List.append_nil _
  have hdaemon : net.server = (s.net.server.handleMessage py q.msg "" now).2 := by
    rw [hserver, handle, handleMessage_settle hmsg]
  unfold routed
  dsimp only
  rw [horder, hdaemon, hlog]
  exact congrArg (RoutedSystem.mk _ _) hset.symm

theorem Wired.asked_of_serve (h : Wired s) {c : ℕ} {uuid : String} {now : ℚ} {q : SocketRequest}
    {net : Rpc.Net BrokerDaemon SocketRequest BrokerMessage} {r : Option BrokerMessage}
    (hserve : s.net.serve (handle py) c (uuid, now) = some net) (hlog : net.log = s.net.log ++ [(q, r)])
    (hasked : net.asked = s.net.asked) : q ∈ s.net.asked := by
  have hmem : q ∈ net.log.map Prod.fst :=
    List.mem_map_of_mem (f := Prod.fst) (hlog ▸ List.mem_append_right _ (List.mem_singleton.2 rfl) : (q, r) ∈ net.log)
  rw [← hasked]
  exact (h.sound.serve hserve).handled_subperm.subset hmem

theorem match_serve (h : Wired s) {c : ℕ} {uuid : String} {now : ℚ} (hstep : step py s (.serve c uuid now) = some s')
    (read : ℕ → Bool) : ∃ a, RoutedSystem.step py (routed py read s) a = some (routed py read s') := by
  have hwired := wired_serve h hstep
  obtain ⟨q, net, hserve, hfresh, hlog, hserver, hasked, -, rfl⟩ := serve_cases hstep
  have hq : q ∈ s.net.asked := h.asked_of_serve hserve hlog hasked
  cases hres : q.reserves with
  | true => exact match_serve_reserve h hfresh hlog hserver hq hwired.distinct_log hres read
  | false => exact match_serve_settle h hlog hserver hq hwired.distinct_log hres read

/-! ### A reply read or given up -/

theorem match_read (h : Wired s) {k : ℕ} (hstep : step py s (.read k) = some s') (read : ℕ → Bool) :
    ∃ read', routed py read s' = routed py read' s := by
  obtain ⟨q, c, reply, net, hq, hread, hc, rfl⟩ := read_step_cases hstep
  obtain ⟨hserver, hlog, -⟩ := Rpc.Net.read_spec hread
  obtain ⟨q', hq', hmem⟩ := h.sound.read_answers hread
  rw [hq] at hq'
  cases hq'
  refine ⟨Function.update read q.call true, routed_congr hserver rfl hlog (fun j hj => ?_)⟩
  by_cases hjq : j = q.call
  · rw [hjq, Function.update_self, call_eq hc,
      call_eq (s := { s with net, calls := _ }) (List.getElem?_set_self (List.getElem?_eq_some_iff.1 hc).1)]
    obtain ⟨-, ⟨hres, hphase⟩ | ⟨hres, phase, hphase⟩⟩ := h.waiting hq hc
    · have hreply := reserveReply_of_mem h.distinct_log hmem hres
      simp only [SocketCall.routed, SocketCall.received, hphase, hreply, if_true]
    · have hsettled : hasSettled s.net.log q.call = true := hasSettled_eq_true_iff.2 ⟨_, hmem, hres, rfl⟩
      have hreplied : replied s.net.log q.call = true := List.any_eq_true.2 ⟨_, hmem, by simp [hres]⟩
      simp only [SocketCall.routed, SocketCall.received, hphase, hsettled, hreplied, if_true, Bool.true_and]
  · rw [Function.update_of_ne hjq, call, call, List.getElem?_set_ne (Ne.symm hjq)]

theorem match_giveUp (h : Wired s) {k : ℕ} (hstep : step py s (.giveUp k) = some s') (read : ℕ → Bool) :
    ∃ read', routed py read s' = routed py read' s := by
  obtain ⟨q, c, hq, hc, rfl⟩ := giveUp_cases hstep
  refine ⟨Function.update read q.call false, routed_congr rfl rfl rfl (fun j hj => ?_)⟩
  by_cases hjq : j = q.call
  · rw [hjq, Function.update_self, call_eq hc,
      call_eq (s := { s with net := _, calls := _ }) (List.getElem?_set_self (List.getElem?_eq_some_iff.1 hc).1)]
    obtain ⟨-, ⟨-, hphase⟩ | ⟨-, phase, hphase⟩⟩ := h.waiting hq hc
    · simp only [SocketCall.routed, SocketCall.raised, hphase, Bool.false_eq_true, if_false]
    · simp only [SocketCall.routed, SocketCall.raised, hphase, Bool.false_and]
  · rw [Function.update_of_ne hjq, call, call, List.getElem?_set_ne (Ne.symm hjq)]

/-! ## Runs -/

/-- **A step is a step of `RoutedCalls`, or none**, whatever becomes of the replies in flight. -/
theorem match_step (h : Wired s) {a : SocketAct} (hstep : step py s a = some s') (read : ℕ → Bool) :
    ∃ read', routed py read s' = routed py read' s ∨
      ∃ a', RoutedSystem.step py (routed py read' s) a' = some (routed py read s') := by
  cases a with
  | reserve k provider model sent => exact ⟨read, Or.inl (match_reserve h hstep read)⟩
  | provider i result => exact ⟨read, Or.inr (match_provider h hstep read)⟩
  | settle i sent => exact ⟨read, Or.inl (match_settle h hstep read)⟩
  | serve c uuid now => exact ⟨read, Or.inr (match_serve h hstep read)⟩
  | read k =>
    obtain ⟨read', hsame⟩ := match_read h hstep read
    exact ⟨read', Or.inl hsame⟩
  | giveUp k =>
    obtain ⟨read', hsame⟩ := match_giveUp h hstep read
    exact ⟨read', Or.inl hsame⟩
  | reap now =>
    cases hstep
    exact ⟨read, Or.inr ⟨.reap now, rfl⟩⟩

theorem matched_of_run {d : BrokerDaemon} {acts : List SocketAct} (h : (machine py).run (start d) acts = some s) :
    ∀ read, ∃ acts, (RoutedSystem.machine py).run ⟨d, [], []⟩ acts = some (routed py read s) := by
  refine ((machine py).inv_of_run
    (fun s => Wired s ∧ ∀ read, ∃ acts, (RoutedSystem.machine py).run ⟨d, [], []⟩ acts = some (routed py read s))
    (fun s a s' hs hstep => ⟨wired_step hs.1 hstep, fun read => ?_⟩) acts _ s ⟨wired_init d, fun read => ⟨[], rfl⟩⟩ h).2
  obtain ⟨read', hsame | ⟨a', ha'⟩⟩ := match_step hs.1 hstep read
  · rw [hsame]
    exact hs.2 read'
  · obtain ⟨acts', hacts⟩ := hs.2 read'
    exact ⟨acts' ++ [a'], (RoutedSystem.machine py).run_snoc ha' acts' _ hacts⟩

/-- **The state is one of `RoutedCalls`**: whichever of the replies in flight will be read, a run there leads to its view,
and a call that is not blocked in a request or left by one is there with its phase. -/
structure Refined (py : Builtins) (d : BrokerDaemon) (s : SocketSystem) : Prop where
  run : ∀ read, ∃ acts, (RoutedSystem.machine py).run ⟨d, [], []⟩ acts = some (routed py read s)
  running : ∀ (read : ℕ → Bool) (i : ℕ) (c : SocketCall) (phase : CallPhase), s.calls[i]? = some c →
    c.phase = .running phase → ∃ j : ℕ, (routed py read s).calls[j]? = some ⟨c.provider, c.model, phase⟩

/-- **Over connections the calls do what `RoutedCalls` says**, however requests and replies are delayed, lost or given up
and whenever the daemon comes to them, as long as it handles one at a time. -/
theorem refined_of_run (py : Builtins) (d : BrokerDaemon) (acts : List SocketAct) (s : SocketSystem)
    (h : (machine py).run (start d) acts = some s) : Refined py d s := by
  refine ⟨matched_of_run h, fun read i c phase hc hphase => ?_⟩
  have hfits := (wired_of_run h).fits i c hc
  rw [Fits, hphase] at hfits
  have hget := routed_getElem? py read hfits.1
  rw [call_eq hc] at hget
  exact ⟨_, by rw [hget, SocketCall.routed, hphase]⟩

/-! ## Slots and the kill switch -/

end SocketSystem

/-- The provider runs. -/
def SocketCall.isCalling (c : SocketCall) : Bool :=
  match c.phase with
  | .running phase => phase.isCalling
  | _ => false

namespace SocketSystem

/-- The calls running at a provider. -/
def callsAt (s : SocketSystem) (p : ProviderId) : ℕ := s.calls.countP (fun c => decide (c.provider = p) && c.isCalling)

theorem map_call_range (s : SocketSystem) : (List.range s.calls.length).map s.call = s.calls := by
  refine List.ext_getElem (by simp) (fun i hi hi' => ?_)
  rw [List.getElem_map, List.getElem_range, call_eq (List.getElem?_eq_getElem hi')]

variable (py) in
/-- A call at its provider is one that `RoutedCalls` has there. -/
theorem callsAt_le (h : Wired s) (read : ℕ → Bool) (p : ProviderId) :
    s.callsAt p ≤ (routed py read s).count p CallPhase.isCalling := by
  have hrunning : ∀ i < s.calls.length, (s.call i).isCalling = true →
      ∃ phase, (s.call i).phase = .running phase ∧ phase.isCalling = true ∧ i ∈ reservedOrder s.net.log := by
    intro i hi hcalling
    have hfits := h.fits i (s.call i) (by rw [call_eq (List.getElem?_eq_getElem hi), List.getElem?_eq_getElem hi])
    unfold SocketCall.isCalling at hcalling
    cases hphase : (s.call i).phase with
    | running phase =>
      rw [Fits, hphase] at hfits
      rw [hphase] at hcalling
      exact ⟨phase, rfl, hcalling, hfits.1⟩
    | _ =>
      rw [hphase] at hcalling
      cases hcalling
  have hcount : s.callsAt p = ((List.range s.calls.length).filter
      (fun i => decide ((s.call i).provider = p) && (s.call i).isCalling)).length := by
    rw [callsAt, ← List.countP_eq_length_filter]
    conv_lhs => rw [← map_call_range s]
    rw [List.countP_map]
    rfl
  have hsub : (List.range s.calls.length).filter (fun i => decide ((s.call i).provider = p) && (s.call i).isCalling) ⊆
      (reservedOrder s.net.log).filter (fun i => decide ((s.call i).provider = p) && (s.call i).isCalling) := by
    intro i hi
    obtain ⟨hlt, hcond⟩ := List.mem_filter.1 hi
    obtain ⟨-, -, -, hmem⟩ := hrunning i (List.mem_range.1 hlt) (Bool.and_eq_true_iff.1 hcond).2
    exact List.mem_filter.2 ⟨hmem, hcond⟩
  rw [hcount, RoutedSystem.count, routed, List.countP_map]
  refine Nat.le_trans ((List.nodup_range.filter _).subperm hsub).length_le ?_
  rw [← List.countP_eq_length_filter]
  refine List.countP_mono_left (fun i hi hcond => ?_)
  obtain ⟨hprovider, hcalling⟩ := Bool.and_eq_true_iff.1 hcond
  obtain ⟨phase, hphase, hphase', -⟩ := hrunning i (h.lt_of_mem hi) hcalling
  show (decide ((s.call i).provider = p) && ((s.call i).routed py s.net.log (read i) i).phase.isCalling) = true
  rw [hprovider, SocketCall.routed, hphase, Bool.true_and]
  exact hphase'

/-- **A limited provider never runs more calls than it has slots**, over connections too. -/
theorem callsAt_within_slots (py : Builtins) (cfg : HarnessConfig) (now : ℚ) (d : BrokerDaemon)
    (hd : BrokerDaemon.init cfg now = some d) (p : ProviderId) (l : LocalLimiter) (hl : d.limiters p = some l)
    (acts : List SocketAct) (s : SocketSystem) (h : (machine py).run (start d) acts = some s) :
    s.callsAt p ≤ l.maxConcurrency := by
  obtain ⟨acts', hacts⟩ := matched_of_run h (fun _ => true)
  obtain ⟨l', -, -, -, hpermits⟩ := RoutedSystem.slotsOf_of_run hd hl hacts
  have hcalling := (routed py (fun _ => true) s).calling_add_keeps_le p
  have hle := callsAt_le py (wired_of_run h) (fun _ => true) p
  omega

end SocketSystem

/-- The call's provider has been called. -/
def SocketCall.reached (c : SocketCall) : Bool :=
  match c.phase with
  | .running phase => phase.reached
  | .settling _ | .unsettled _ => true
  | _ => false

/-- The daemon granted the call its reservation. -/
def granted (log : SocketLog) (i : ℕ) : Bool := (reserveReply log i).any BrokerMessage.granted

namespace SocketSystem

/-- Whoever reached its provider was granted. -/
def GrantedFirst (s : SocketSystem) : Prop :=
  ∀ i c, s.calls[i]? = some c → c.reached = true → granted s.net.log i = true

theorem Wired.mem_of_reached (h : Wired s) {i : ℕ} {c : SocketCall} (hi : s.calls[i]? = some c)
    (hreached : c.reached = true) : i ∈ reservedOrder s.net.log := by
  have hfits := h.fits i c hi
  unfold SocketCall.reached at hreached
  unfold Fits at hfits
  cases hphase : c.phase with
  | reserving =>
    rw [hphase] at hreached
    cases hreached
  | unreserved =>
    rw [hphase] at hreached
    cases hreached
  | _ =>
    rw [hphase] at hfits
    exact hfits.1

/-- One call moved on that had reached its provider, or has only now and is granted. -/
theorem GrantedFirst.set (h : GrantedFirst s) {i : ℕ} {c c' : SocketCall} (hi : s.calls[i]? = some c)
    (hreached : c'.reached = true → c.reached = true ∨ granted s.net.log i = true) :
    ∀ j c₁, (s.calls.set i c')[j]? = some c₁ → c₁.reached = true → granted s.net.log j = true := by
  intro j c₁ hj h₁
  by_cases hji : j = i
  · rw [hji, List.getElem?_set_self (List.getElem?_eq_some_iff.1 hi).1] at hj
    cases hj
    rw [hji]
    rcases hreached h₁ with hold | hnew
    · exact h i c hi hold
    · exact hnew
  · rw [List.getElem?_set_ne (Ne.symm hji)] at hj
    exact h j c₁ hj h₁

theorem grantedFirst_step (hw : Wired s) (h : GrantedFirst s) {a : SocketAct} (hstep : step py s a = some s') :
    GrantedFirst s' := by
  cases a with
  | reserve k provider model sent =>
    simp only [step] at hstep
    obtain ⟨net, hbegin, rfl⟩ := Option.map_eq_some_iff.1 hstep
    intro i c hi hreached
    change (s.calls ++ _)[i]? = some c at hi
    show granted net.log i = true
    rw [(begin_same hbegin).2]
    rw [List.getElem?_append] at hi
    split at hi
    · exact h i c hi hreached
    · rw [List.getElem?_singleton] at hi
      split at hi
      · cases hi
        cases sent <;> cases hreached
      · cases hi
  | provider i result =>
    simp only [step] at hstep
    split at hstep
    · rename_i k provider model rid hi
      cases hstep
      exact h.set hi (fun _ => Or.inl rfl)
    · cases hstep
  | settle i sent =>
    simp only [step] at hstep
    split at hstep
    swap
    · cases hstep
    rename_i k provider model phase hi
    split at hstep
    · cases hstep
    rename_i msg hmsg
    obtain ⟨net, hbegin, rfl⟩ := Option.map_eq_some_iff.1 hstep
    intro j c hj hreached
    show granted net.log j = true
    rw [(begin_same hbegin).2]
    refine h.set hi (fun _ => Or.inl ?_) j c hj hreached
    cases phase <;> cases hmsg <;> rfl
  | serve c uuid now =>
    obtain ⟨q, net, -, -, hlog, -, -, -, rfl⟩ := serve_cases hstep
    intro i c₁ hi hreached
    show granted net.log i = true
    rw [granted, hlog, reserveReply_snoc_of_mem (hw.mem_of_reached hi hreached)]
    exact h i c₁ hi hreached
  | read k =>
    obtain ⟨q, c, reply, net, hq, hread, hc, rfl⟩ := read_step_cases hstep
    obtain ⟨-, hlog, -⟩ := Rpc.Net.read_spec hread
    obtain ⟨q', hq', hmem⟩ := hw.sound.read_answers hread
    rw [hq] at hq'
    cases hq'
    intro j c₁ hj hreached
    show granted net.log j = true
    rw [hlog]
    refine h.set hc (fun hnow => ?_) j c₁ hj hreached
    obtain ⟨-, ⟨hres, hphase⟩ | ⟨-, phase, hphase⟩⟩ := hw.waiting hq hc
    · rw [SocketCall.reached, SocketCall.received, hphase] at hnow
      refine Or.inr ?_
      rw [granted, reserveReply_of_mem hw.distinct_log hmem hres, Option.any_some]
      dsimp only [afterReply] at hnow
      split at hnow
      · assumption
      · cases hnow
    · exact Or.inl (by rw [SocketCall.reached, hphase])
  | giveUp k =>
    obtain ⟨q, c, hq, hc, rfl⟩ := giveUp_cases hstep
    refine h.set hc (fun hnow => ?_)
    obtain ⟨-, ⟨-, hphase⟩ | ⟨-, phase, hphase⟩⟩ := hw.waiting hq hc
    · rw [SocketCall.reached, SocketCall.raised, hphase] at hnow
      cases hnow
    · exact Or.inl (by rw [SocketCall.reached, hphase])
  | reap now =>
    cases hstep
    exact h

/-- **No RESERVE handled with the switch tripped is granted.** -/
theorem granted_serve (hw : Wired s) {c : ℕ} {uuid : String} {now : ℚ} (hstep : step py s (.serve c uuid now) = some s')
    (htrip : s.net.server.kill.tripped = true) (i : ℕ) (hgranted : granted s'.net.log i = true) :
    granted s.net.log i = true := by
  have hdistinct := (wired_serve hw hstep).distinct_log
  obtain ⟨q, net, hserve, -, hlog, -, hasked, -, rfl⟩ := serve_cases hstep
  change granted net.log i = true at hgranted
  change Distinct net.log at hdistinct
  rw [hlog] at hgranted hdistinct
  have hq : q ∈ s.net.asked := hw.asked_of_serve hserve hlog hasked
  by_cases hnew : q.reserves = true ∧ q.call = i
  · obtain ⟨hres, rfl⟩ := hnew
    have hnot : q.call ∉ reservedOrder s.net.log := fun hmem => by
      obtain ⟨x, hx, hxres, hxcall⟩ := mem_reservedOrder.1 hmem
      exact not_handled hdistinct hx hxcall (by rw [hxres, hres])
    rw [granted, reserveReply_snoc_self hnot hres rfl] at hgranted
    obtain ⟨c₀, -, hmsg⟩ := hw.made q hq
    simp only [handle, hmsg hres] at hgranted
    rcases handle_reserve_routed py s.net.server c₀.provider uuid now with
      ⟨-, hopen, -, -⟩ | ⟨reply, d', hno, -, -, heq⟩
    · rw [htrip] at hopen
      cases hopen
    · rw [heq] at hgranted
      change reply.granted = true at hgranted
      rw [hno] at hgranted
      cases hgranted
  · rw [granted, reserveReply_snoc_of_ne] at hgranted
    · exact hgranted
    · by_cases hres : q.reserves = true
      · exact Or.inr (fun hcall => hnew ⟨hres, hcall⟩)
      · exact Or.inl (Bool.eq_false_iff.2 hres)

theorem granted_step (hw : Wired s) {a : SocketAct} (hstep : step py s a = some s')
    (htrip : s.net.server.kill.tripped = true) (i : ℕ) (hgranted : granted s'.net.log i = true) :
    granted s.net.log i = true := by
  cases a with
  | serve c uuid now => exact granted_serve hw hstep htrip i hgranted
  | reserve k provider model sent =>
    simp only [step] at hstep
    obtain ⟨net, hbegin, rfl⟩ := Option.map_eq_some_iff.1 hstep
    rwa [← (begin_same hbegin).2]
  | provider j result =>
    simp only [step] at hstep
    split at hstep <;> cases hstep
    exact hgranted
  | settle j sent =>
    simp only [step] at hstep
    split at hstep
    swap
    · cases hstep
    split at hstep
    · cases hstep
    obtain ⟨net, hbegin, rfl⟩ := Option.map_eq_some_iff.1 hstep
    rwa [← (begin_same hbegin).2]
  | read k =>
    obtain ⟨q, c, reply, net, -, hread, -, rfl⟩ := read_step_cases hstep
    rwa [← (Rpc.Net.read_spec hread).2.1]
  | giveUp k =>
    obtain ⟨q, c, -, -, rfl⟩ := giveUp_cases hstep
    exact hgranted
  | reap now =>
    cases hstep
    exact hgranted

theorem tripped_step (hw : Wired s) {a : SocketAct} (hstep : step py s a = some s')
    (htrip : s.net.server.kill.tripped = true) : s'.net.server.kill.tripped = true := by
  obtain ⟨read', hsame | ⟨a', ha'⟩⟩ := match_step hw hstep (fun _ => true)
  · have hserver : s'.net.server = s.net.server := congrArg RoutedSystem.daemon hsame
    rw [hserver]
    exact htrip
  · exact RoutedSystem.tripped_of_effect (RoutedSystem.effect_of_step ha') htrip

/-- **Once the switch is tripped only calls granted before reach their provider**: replies in flight may still be read
then, but no RESERVE handled after it is granted, whatever is asked, delayed, lost or given up. -/
theorem granted_before_trip (py : Builtins) (d : BrokerDaemon) (acts later : List SocketAct) (s t : SocketSystem)
    (h : (machine py).run (start d) acts = some s) (htrip : s.net.server.kill.tripped = true)
    (hlater : (machine py).run s later = some t) (i : ℕ) (c : SocketCall) (hi : t.calls[i]? = some c)
    (hreached : c.reached = true) : granted s.net.log i = true := by
  have hstart : Wired s ∧ GrantedFirst s := (machine py).inv_of_run (fun s => Wired s ∧ GrantedFirst s)
    (fun _ _ _ hs hstep => ⟨wired_step hs.1 hstep, grantedFirst_step hs.1 hs.2 hstep⟩) acts _ s
    ⟨wired_init d, fun _ _ hi => by cases hi⟩ h
  have hend := (machine py).inv_of_run
    (fun r => (Wired r ∧ GrantedFirst r) ∧ r.net.server.kill.tripped = true ∧
      ∀ i, granted r.net.log i = true → granted s.net.log i = true)
    (fun r a r' hr hstep => ⟨⟨wired_step hr.1.1 hstep, grantedFirst_step hr.1.1 hr.1.2 hstep⟩,
      tripped_step hr.1.1 hstep hr.2.1, fun i hi => hr.2.2 i (granted_step hr.1.1 hstep hr.2.1 i hi)⟩)
    later s t ⟨hstart, htrip, fun _ hi => hi⟩ hlater
  exact hend.2.2 i (hend.1.2 i c hi hreached)

/-! ## A reservation given up, and a reply that comes after the trip -/

/-- The first call gives its RESERVE up; the daemon comes to it after the second call's, made over a new connection. -/
def givenUp : List SocketAct :=
  [.reserve 0 .ollama "llama3:8b" true, .giveUp 0, .reserve 0 .ollama "llama3:8b" true, .serve 1 "r1" 0, .serve 0 "r2" 1,
    .read 0]

theorem refined_givenUp : ∃ d s, BrokerDaemon.init oneSlot 0 = some d ∧
    (machine Builtins.decimal).run (start d) givenUp = some s ∧ Refined Builtins.decimal d s := by
  have hrun : (BrokerDaemon.init oneSlot 0).any (fun d =>
      ((machine Builtins.decimal).run (start d) givenUp).isSome) = true := by decide +kernel
  obtain ⟨d, hd, h⟩ := (Option.any_eq_true _ _).1 hrun
  obtain ⟨s, hs⟩ := Option.isSome_iff_exists.1 h
  exact ⟨d, s, hd, hs, refined_of_run Builtins.decimal d givenUp s hs⟩

theorem callsAt_givenUp : ∃ d l s, BrokerDaemon.init oneSlot 0 = some d ∧ d.limiters .ollama = some l ∧
    (machine Builtins.decimal).run (start d) givenUp = some s ∧ s.callsAt .ollama = 1 ∧
      s.callsAt .ollama ≤ l.maxConcurrency := by
  have hrun : (BrokerDaemon.init oneSlot 0).any (fun d => (d.limiters .ollama).isSome &&
      ((machine Builtins.decimal).run (start d) givenUp).any (fun s => decide (s.callsAt .ollama = 1))) = true := by
    decide +kernel
  obtain ⟨d, hd, h⟩ := (Option.any_eq_true _ _).1 hrun
  rw [Bool.and_eq_true] at h
  obtain ⟨l, hl⟩ := Option.isSome_iff_exists.1 h.1
  obtain ⟨s, hs, hone⟩ := (Option.any_eq_true _ _).1 h.2
  exact ⟨d, l, s, hd, hl, hs, of_decide_eq_true hone,
    callsAt_within_slots Builtins.decimal oneSlot 0 d hd .ollama l hl givenUp s hs⟩

/-- Two calls of two clients are granted, and the first trips the switch before the second reads its reply. -/
def tripping : List SocketAct :=
  [.reserve 0 .anthropic "anthropic-default" true, .reserve 1 .anthropic "anthropic-default" true, .serve 0 "r1" 0,
    .serve 1 "r2" 0, .read 0, .provider 0 (.returns ⟨3000000, 0⟩), .settle 0 true, .serve 0 "r3" 1]

theorem granted_before_trip_tripping : ∃ d s t c, BrokerDaemon.init twoDollars 0 = some d ∧
    (machine Builtins.decimal).run (start d) tripping = some s ∧ s.net.server.kill.tripped = true ∧
    (machine Builtins.decimal).run s [.read 1] = some t ∧ t.calls[1]? = some c ∧ c.reached = true ∧
    granted s.net.log 1 = true := by
  have hrun : (BrokerDaemon.init twoDollars 0).any (fun d =>
      ((machine Builtins.decimal).run (start d) tripping).any (fun s => s.net.server.kill.tripped &&
        ((machine Builtins.decimal).run s [.read 1]).any (fun t => t.calls[1]?.any SocketCall.reached))) = true := by
    decide +kernel
  obtain ⟨d, hd, h⟩ := (Option.any_eq_true _ _).1 hrun
  obtain ⟨s, hs, h⟩ := (Option.any_eq_true _ _).1 h
  rw [Bool.and_eq_true] at h
  obtain ⟨t, ht, hcall⟩ := (Option.any_eq_true _ _).1 h.2
  obtain ⟨c, hc, hreached⟩ := (Option.any_eq_true _ _).1 hcall
  exact ⟨d, s, t, c, hd, hs, h.1, ht, hc, hreached,
    granted_before_trip Builtins.decimal d tripping [.read 1] s t hs h.1 ht 1 c hc hreached⟩

end SocketSystem

end Broker
end DevHarness
