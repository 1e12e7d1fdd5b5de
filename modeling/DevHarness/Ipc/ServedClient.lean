import DevHarness.Ipc.PushLoop
/-!
# ServedClient — one client of the broadcast, from its attach on (`ipc/server.py`)

A client attached before anything is published, never dropped and with no failed send, is in the copy of the connections
that every batch goes to.  What it was sent and what is on its way to it is then what was published, in order
(`sent_to_client`).
-/
namespace DevHarness

open Lib (Machine)

namespace Ipc
namespace PushServer

variable {ι π : Type} [DecidableEq ι] {codec : EnvelopeCodec π}

/-- **A client that stays**: unless a send to it failed, it is connected and every batch is for it. -/
def Stays (c : ι) (s : PushServer ι π) : Prop := s.failed c = false → c ∈ s.conns ∧ ∀ b ∈ s.batches, c ∈ b.1

theorem stays_send {s : PushServer ι π} {c : ι} (h : Stays c s) (d : ι) (e : Envelope π) (todo : List (ι × Envelope π))
    (ok : Bool) : Stays c (s.send codec d e todo ok) := by
  unfold send
  split
  · exact h
  · split
    · exact h
    · intro hc
      change Function.update s.failed d true c = false at hc
      have hcd : c ≠ d := by
        rintro rfl
        rw [Function.update_self] at hc
        cases hc
      rw [Function.update_of_ne hcd] at hc
      exact ⟨(List.mem_erase_of_ne hcd).2 (h hc).1, (h hc).2⟩

theorem stays_step {s s' : PushServer ι π} {c : ι} {a : PushAct ι π} (h : Stays c s) (hdrop : a ≠ .drop c)
    (hstep : step codec s a = some s') : Stays c s' := by
  cases a with
  | publish e =>
    cases hstep
    exact h
  | accept d =>
    simp only [step] at hstep
    split at hstep
    · cases hstep
    · cases hstep
      exact fun hc => ⟨List.mem_append_left _ (h hc).1, (h hc).2⟩
  | drop d =>
    simp only [step] at hstep
    split at hstep
    · cases hstep
      have hcd : c ≠ d := fun he => hdrop (he ▸ rfl)
      exact fun hc => ⟨(List.mem_erase_of_ne hcd).2 (h hc).1, (h hc).2⟩
    · cases hstep
  | poll =>
    simp only [step] at hstep
    split at hstep
    · split at hstep
      · cases hstep
        exact h
      · cases hstep
        exact h
    · cases hstep
  | copy =>
    simp only [step] at hstep
    split at hstep
    · cases hstep
      refine fun hc => ⟨(h hc).1, fun b hb => ?_⟩
      rcases List.mem_append.1 hb with hold | hnew
      · exact (h hc).2 b hold
      · rw [List.mem_singleton.1 hnew]
        exact (h hc).1
    · cases hstep
  | send ok =>
    simp only [step] at hstep
    split at hstep
    · cases hstep
      exact stays_send h _ _ _ ok
    · cases hstep

/-- **Everything on its way satisfies `P`**, and everything published. -/
structure AllOf (P : Envelope π → Prop) (s : PushServer ι π) : Prop where
  published : ∀ e ∈ s.published, P e
  broadcast : ∀ e ∈ s.broadcast, P e
  undispatched : ∀ e ∈ s.undispatched, P e
  remaining : ∀ p ∈ remaining s.phase, P p.2

theorem AllOf.send {P : Envelope π → Prop} {s : PushServer ι π} (h : AllOf P s) {c : ι} {e : Envelope π}
    {todo : List (ι × Envelope π)} (hphase : s.phase = .sending ((c, e) :: todo)) (ok : Bool) :
    AllOf P (s.send codec c e todo ok) := by
  have htodo : ∀ p ∈ todo, P p.2 := by
    intro p hp
    refine h.remaining p ?_
    rw [hphase]
    exact List.mem_cons_of_mem _ hp
  unfold PushServer.send
  split
  · exact ⟨h.published, h.broadcast, List.forall_mem_nil _, List.forall_mem_nil _⟩
  · have hnone : ∀ s' : PushServer ι π, s'.phase = next todo → ∀ e ∈ s'.undispatched, P e := by
      intro s' hs'
      rw [undispatched_next hs']
      exact List.forall_mem_nil _
    split
    · exact ⟨h.published, h.broadcast, hnone _ rfl, by rw [remaining_next]; exact htodo⟩
    · exact ⟨h.published, h.broadcast, hnone _ rfl, by rw [remaining_next]; exact htodo⟩

theorem AllOf.step {P : Envelope π → Prop} {s s' : PushServer ι π} {a : PushAct ι π} (h : AllOf P s)
    (ha : ∀ e, a = .publish e → P e) (hstep : PushServer.step codec s a = some s') : AllOf P s' := by
  cases a with
  | publish e =>
    cases hstep
    have hsnoc : ∀ l : List (Envelope π), (∀ x ∈ l, P x) → ∀ x ∈ l ++ [e], P x := by
      intro l hl x hx
      rcases List.mem_append.1 hx with hin | hnew
      · exact hl x hin
      · exact List.mem_singleton.1 hnew ▸ ha e rfl
    exact ⟨hsnoc _ h.published, hsnoc _ h.broadcast, h.undispatched, h.remaining⟩
  | accept d =>
    simp only [PushServer.step] at hstep
    split at hstep
    · cases hstep
    · cases hstep
      exact ⟨h.published, h.broadcast, h.undispatched, h.remaining⟩
  | drop d =>
    simp only [PushServer.step] at hstep
    split at hstep
    · cases hstep
      exact ⟨h.published, h.broadcast, h.undispatched, h.remaining⟩
    · cases hstep
  | poll =>
    simp only [PushServer.step] at hstep
    split at hstep
    · split at hstep
      · cases hstep
        exact h
      · cases hstep
        exact ⟨h.published, List.forall_mem_nil _, h.broadcast, List.forall_mem_nil _⟩
    · cases hstep
  | copy =>
    simp only [PushServer.step] at hstep
    split at hstep
    · rename_i envelopes hphase
      cases hstep
      have hbatch : ∀ e ∈ envelopes, P e := by
        have hun := h.undispatched
        rw [PushServer.undispatched, hphase] at hun
        exact hun
      refine ⟨h.published, h.broadcast, ?_, ?_⟩
      · rw [undispatched_next rfl]
        exact List.forall_mem_nil _
      · rw [remaining_next]
        intro p hp
        obtain ⟨c, -, hc⟩ := List.mem_flatMap.1 hp
        obtain ⟨e, he, rfl⟩ := List.mem_map.1 hc
        exact hbatch e he
    · cases hstep
  | send ok =>
    simp only [PushServer.step] at hstep
    split at hstep
    · rename_i c e todo hphase
      cases hstep
      exact h.send hphase ok
    · cases hstep

/-- What a run with a client that stays keeps. -/
structure Serves (codec : EnvelopeCodec π) (c : ι) (s : PushServer ι π) : Prop where
  kept : s.Kept codec
  stays : Stays c s
  encodable : AllOf (fun e => encodable codec e = true) s

theorem Serves.step {c : ι} {s s' : PushServer ι π} {a : PushAct ι π} (h : Serves codec c s) (hdrop : a ≠ .drop c)
    (ha : ∀ e, a = .publish e → Ipc.encodable codec e = true) (hstep : PushServer.step codec s a = some s') :
    Serves codec c s' := by
  refine ⟨kept_step h.kept ?_ hstep, stays_step h.stays hdrop hstep, h.encodable.step ha hstep⟩
  cases a with
  | send ok =>
    intro d e todo hphase
    refine h.encodable.remaining (d, e) ?_
    rw [hphase]
    exact List.mem_cons_self
  | _ => trivial

/-- **What a client that stays was sent, and what is still on its way to it, is what was published**, in order. -/
theorem Serves.sent {c : ι} {s : PushServer ι π} (h : Serves codec c s) (hfailed : s.failed c = false) :
    s.sent c ++ s.pending c ++ s.undispatched ++ s.broadcast = s.published := by
  have howed : s.owed c = s.batches.flatMap Prod.snd := by
    refine List.flatMap_congr (fun b hb => ?_)
    exact if_pos ((h.stays hfailed).2 b hb)
  have hpublished := h.kept.1.published
  have hall : ∀ e ∈ s.batches.flatMap Prod.snd, Ipc.encodable codec e = true := by
    intro e he
    refine h.encodable.published e ?_
    rw [← hpublished]
    exact List.mem_append_left _ (List.mem_append_left _ he)
  have hpending : ∀ e ∈ s.pending c, Ipc.encodable codec e = true := by
    intro e he
    obtain ⟨p, hp, rfl⟩ := List.mem_map.1 he
    exact h.encodable.remaining p (List.mem_filter.1 hp).1
  have hdelivered := h.kept.1.delivered c hfailed
  rw [howed, List.filter_eq_self.2 hall, List.filter_eq_self.2 hpending] at hdelivered
  rw [hdelivered, hpublished]

/-- Nothing is on its way: the loop polls an empty queue. -/
def isIdle (s : PushServer ι π) : Bool :=
  match s.phase with
  | .polling => s.broadcast.isEmpty
  | _ => false

omit [DecidableEq ι] in
theorem isIdle_cases {s : PushServer ι π} (h : s.isIdle = true) : s.phase = .polling ∧ s.broadcast = [] := by
  unfold isIdle at h
  split at h
  · exact ⟨‹_›, List.isEmpty_iff.1 h⟩
  · cases h

theorem sent_eq_of_isIdle {s : PushServer ι π} {c : ι} (hidle : s.isIdle = true)
    (hsent : s.sent c ++ s.pending c ++ s.undispatched ++ s.broadcast = s.published) : s.sent c = s.published := by
  obtain ⟨hphase, hbroadcast⟩ := isIdle_cases hidle
  rw [hbroadcast, undispatched, pending, hphase] at hsent
  simpa [remaining] using hsent

/-- **A run that a client was attached to from the start serves it**, where it is never dropped and everything published
can be encoded. -/
theorem serves_run {c : ι} {acts : List (PushAct ι π)} {s : PushServer ι π}
    (hrun : (machine codec).run {} (.accept c :: acts) = some s) (hdrop : .drop c ∉ acts)
    (hacts : ∀ e, .publish e ∈ acts → Ipc.encodable codec e = true) : Serves codec c s := by
  obtain ⟨s₁, haccept, hrest⟩ := (machine codec).run_cons_eq_some.1 hrun
  have hstart : Serves codec c s₁ := by
    cases haccept
    refine ⟨kept_step (kept_init codec) trivial (a := .accept c) rfl, fun _ => ⟨List.mem_cons_self, List.forall_mem_nil _⟩, ?_⟩
    exact ⟨List.forall_mem_nil _, List.forall_mem_nil _, List.forall_mem_nil _, List.forall_mem_nil _⟩
  have hall := (machine codec).inv_of_history
    (fun past s => (∀ a ∈ past, a ∈ acts) → Serves codec c s)
    (fun past s a s' hs hstep hpast => by
      have hmem := hpast a (List.mem_append_right _ List.mem_cons_self)
      refine (hs (fun b hb => hpast b (List.mem_append_left _ hb))).step ?_ ?_ hstep
      · rintro rfl
        exact hdrop hmem
      · rintro e rfl
        exact hacts e hmem)
    acts [] s₁ s (fun _ => hstart) hrest
  exact hall (fun a ha => ha)

/-- **No envelope is lost, repeated or reordered**: in every run whose published envelopes can all be encoded, a client
attached from the start and never dropped, on which no send failed, was sent the published envelopes but for those still
on their way, in publish order; and all of them when the loop has drained its queue. -/
theorem sent_to_client (codec : EnvelopeCodec π) (c : ι) (acts : List (PushAct ι π)) (s : PushServer ι π)
    (hrun : (machine codec).run {} (.accept c :: acts) = some s) (hdrop : .drop c ∉ acts)
    (hacts : ∀ e, .publish e ∈ acts → Ipc.encodable codec e = true) (hfailed : s.failed c = false) :
    s.sent c ++ s.pending c ++ s.undispatched ++ s.broadcast = s.published ∧
      (s.isIdle = true → s.sent c = s.published) := by
  have hsent := (serves_run hrun hdrop hacts).sent hfailed
  exact ⟨hsent, fun hidle => sent_eq_of_isIdle hidle hsent⟩

/-- Two clients are attached when an envelope is published, and the send to the second of them fails. -/
def secondFails (e : Envelope π) : List (PushAct ℕ π) :=
  [.accept 0, .accept 1, .publish e, .poll, .copy, .send true, .send false]

def afterFailure (e : Envelope π) : PushServer ℕ π where
  conns := [0]
  published := [e]
  batches := [([0, 1], [e])]
  sent := Function.update (fun _ => []) 0 [e]
  failed := Function.update (fun _ => false) 1 true

theorem run_secondFails {e : Envelope π} (he : Ipc.encodable codec e = true) :
    (machine codec).run {} (secondFails e) = some (afterFailure e) := by
  obtain ⟨frame, hframe⟩ : ∃ frame, encode codec e = .ok frame := by
    unfold Ipc.encodable at he
    split at he
    · exact ⟨_, ‹_›⟩
    · cases he
  simp [secondFails, afterFailure, Machine.run, machine, PushServer.step, PushServer.send, sends, next, hframe]

theorem sent_to_client_secondFails : ∃ s : PushServer ℕ ℕ,
    (machine textCodec).run {} (secondFails (text 1)) = some s ∧ s.failed 1 = true ∧
    s.sent 0 ++ s.pending 0 ++ s.undispatched ++ s.broadcast = s.published ∧
      (s.isIdle = true → s.sent 0 = s.published) := by
  have hencodable : Ipc.encodable textCodec (text 1) = true := by decide +kernel
  refine ⟨_, run_secondFails hencodable, rfl, ?_⟩
  refine sent_to_client textCodec 0 _ _ (run_secondFails hencodable) (by simp) (fun e he => ?_) rfl
  have hsame : e = text 1 := by simpa using he
  rw [hsame]
  exact hencodable

end PushServer
end Ipc
end DevHarness
