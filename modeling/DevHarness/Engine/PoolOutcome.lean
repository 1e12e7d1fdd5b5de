import DevHarness.Engine.PoolRun
import DevHarness.Lib.Count
import Mathlib.Algebra.GroupWithZero.Nat
import Mathlib.Logic.Relation
/-!
# PoolOutcome — what a run of the worker pool comes to

Every chunk's account is kept by every step (`accounts_effect`): it is executed once, after its dependencies, and the
running counter counts the chunks this run completed.  A turn with nothing to wait for has met no chunk that could run, and
as dependencies come first in the order (`Lib.Layered.exists_least`) every chunk is then completed.
-/
namespace DevHarness
namespace Engine

namespace WorkerPool

variable {κ : Type} [DecidableEq κ] {w : WorkerPool κ} {s s' : PoolRun κ} {initial : κ → ChunkStatus}

/-! ## Accounts -/

omit [DecidableEq κ] in
theorem Stands.of_pending {raises flying : Bool} {i : ChunkStatus} {f : Future} (h : Stands raises i .pending f flying) :
    i = .pending ∧ f = .unsubmitted ∧ flying = false := by
  cases h with
  | untouched => exact ⟨rfl, rfl, rfl⟩

omit [DecidableEq κ] in
theorem Stands.of_finished {raises flying : Bool} {i : ChunkStatus} {f : Future}
    (h : Stands raises i .inProgress f flying) (hf : f.finished = true) : i = .pending ∧ f = Future.ended raises := by
  cases h with
  | ended he => exact ⟨rfl, he⟩
  | _ => cases hf

omit [DecidableEq κ] in
theorem Stands.begin {raises flying : Bool} {i st : ChunkStatus} (h : Stands raises i st .submitted flying) :
    Stands raises i st .running flying := by
  cases h with
  | submitted => exact .running
  | ended he => cases raises <;> cases he

omit [DecidableEq κ] in
theorem Stands.finish {raises flying : Bool} {i st : ChunkStatus} (h : Stands raises i st .running flying) :
    Stands raises i st (Future.ended raises) flying := by
  cases h with
  | running => exact .ended rfl
  | ended he => cases raises <;> cases he

omit [DecidableEq κ] in
theorem Stands.settle (raises : Bool) :
    Stands raises .pending (if !raises then .completed else .failed) (Future.ended raises) false := by
  cases raises with
  | true => exact .failed rfl
  | false => exact .completed rfl

theorem ended_injective : Function.Injective Future.ended := by
  intro a b h
  cases a <;> cases b <;> first | rfl | cases h

theorem accounts_start (w : WorkerPool κ) (initial : κ → ChunkStatus) (assigned : κ → Option String) :
    Accounts w initial (start initial assigned) := by
  refine ⟨fun c => .untouched _, fun c hc => absurd rfl hc, fun c hc => absurd rfl hc, List.nodup_nil, fun c => ?_, ?_⟩
  · exact ⟨fun hc => (by cases hc), fun hc => (by cases hc)⟩
  · refine (List.countP_eq_zero.2 (fun c _ => ?_)).symm
    simp only [decide_eq_true_eq, not_and]
    intro hp hc
    change initial c = .completed at hc
    rw [hp] at hc
    cases hc

/-- **A claim touches pending chunks only**: what is completed stays so, and nothing else becomes it. -/
theorem status_claimed {p : Pool κ} {taken : List κ}
    (ht : Pool.Claimed w.maxParallel (readyChunks w.dag s.pool.status) s.pool p taken) (d : κ) :
    p.status d = .completed ↔ s.pool.status d = .completed := by
  rw [ht.status d]
  by_cases hd : d ∈ taken
  · rw [if_pos hd, (mem_readyChunks.1 (ht.sub.subset hd)).2.1]
    simp
  · rw [if_neg hd]

theorem accounts_claimed (h : Accounts w initial s) {p : Pool κ} {taken : List κ} {phase : PoolPhase κ}
    {failure : Option (PoolError κ)}
    (ht : Pool.Claimed w.maxParallel (readyChunks w.dag s.pool.status) s.pool p taken) :
    Accounts w initial { s with
      pool := { p with phase := phase }, future := fun c => if c ∈ taken then .submitted else s.future c,
      failure := failure } := by
  have hready : ∀ c ∈ taken, c ∈ w.dag.order ∧ s.pool.status c = .pending ∧
      ∀ d ∈ w.dag.deps c, s.pool.status d = .completed := fun c hc => mem_readyChunks.1 (ht.sub.subset hc)
  have hfresh : ∀ c ∈ taken, initial c = .pending ∧ s.future c = .unsubmitted ∧ decide (c ∈ s.pool.inFlight) = false := by
    intro c hc
    have hs := h.stands c
    rw [(hready c hc).2.1] at hs
    exact hs.of_pending
  refine ⟨fun c => ?_, fun c hf => ?_, fun c hf d hd => ?_, h.once, fun c => ?_, ?_⟩
  · show Stands (w.raises c) (initial c) (p.status c) (if c ∈ taken then .submitted else s.future c)
      (decide (c ∈ p.inFlight))
    rw [ht.status c, ht.inFlight]
    by_cases hc : c ∈ taken
    · rw [if_pos hc, if_pos hc, (hfresh c hc).1, decide_eq_true (List.mem_append_right _ hc)]
      exact .submitted
    · rw [if_neg hc, if_neg hc, decide_eq_decide.2 (by rw [List.mem_append, or_iff_left hc])]
      exact h.stands c
  · by_cases hc : c ∈ taken
    · exact (hready c hc).1
    · dsimp only at hf
      rw [if_neg hc] at hf
      exact h.inOrder c hf
  · refine (status_claimed ht d).2 ?_
    by_cases hc : c ∈ taken
    · exact (hready c hc).2.2 d hd
    · dsimp only at hf
      rw [if_neg hc] at hf
      exact h.met c hf d hd
  · show c ∈ s.executed ↔ (if c ∈ taken then Future.submitted else s.future c).begun = true
    by_cases hc : c ∈ taken
    · rw [if_pos hc, h.executed c, (hfresh c hc).2.1]
      exact ⟨fun hf => (by cases hf), fun hf => (by cases hf)⟩
    · rw [if_neg hc]
      exact h.executed c
  · show p.completed = w.dag.order.countP (fun c => initial c = .pending ∧ p.status c = .completed)
    rw [ht.completed, h.counted]
    refine List.countP_congr (fun c _ => ?_)
    simp only [decide_eq_true_eq, status_claimed ht c]

theorem accounts_turn (hb : Bookkeeping w s) (h : Accounts w initial s) (hp : s.pool.phase = .looping) :
    Accounts w initial (w.turn s) := by
  rcases turn_spec hb h hp with ⟨-, he⟩ | ⟨-, p, taken, -, ht, he⟩
  · rw [he]
    exact ⟨h.stands, h.inOrder, h.met, h.once, h.executed, h.counted⟩
  · rw [he]
    exact accounts_claimed h ht

/-- The future of an execution moves on. -/
theorem accounts_future (h : Accounts w initial s) {c : κ} {f : Future} (hold : s.future c ≠ .unsubmitted)
    (hstands : Stands (w.raises c) (initial c) (s.pool.status c) f (decide (c ∈ s.pool.inFlight)))
    {executed : List κ} (honce : executed.Nodup)
    (hexec : ∀ d, d ∈ executed ↔ (Function.update s.future c f d).begun = true) :
    Accounts w initial { s with future := Function.update s.future c f, executed := executed } := by
  have hsame : ∀ d, Function.update s.future c f d ≠ .unsubmitted → s.future d ≠ .unsubmitted := by
    intro d hd
    by_cases hdc : d = c
    · rw [hdc]
      exact hold
    · rwa [Function.update_of_ne hdc] at hd
  refine ⟨fun d => ?_, fun d hd => h.inOrder d (hsame d hd), fun d hd => h.met d (hsame d hd), honce, hexec, h.counted⟩
  show Stands (w.raises d) (initial d) (s.pool.status d) (Function.update s.future c f d) (decide (d ∈ s.pool.inFlight))
  by_cases hdc : d = c
  · subst hdc
    rw [Function.update_self]
    exact hstands
  · rw [Function.update_of_ne hdc]
    exact h.stands d

theorem accounts_begin (h : Accounts w initial s) {c : κ} (hf : s.future c = .submitted) : Accounts w initial
    { s with future := Function.update s.future c .running, executed := s.executed ++ [c] } := by
  have hs := h.stands c
  rw [hf] at hs
  have hnew : c ∉ s.executed := fun hc => by
    rw [h.executed c, hf] at hc
    cases hc
  refine accounts_future h (by rw [hf]; simp) ?_ ?_ (fun d => ?_)
  · exact hs.begin
  · exact List.nodup_append.2 ⟨h.once, List.nodup_singleton c, fun x hx y hy he =>
      hnew (List.mem_singleton.1 hy ▸ he ▸ hx)⟩
  · rw [List.mem_append, List.mem_singleton, h.executed d]
    by_cases hdc : d = c
    · subst hdc
      simp [Future.begun]
    · rw [Function.update_of_ne hdc, or_iff_left hdc]

theorem accounts_finish (h : Accounts w initial s) {c : κ} (hf : s.future c = .running) : Accounts w initial
    { s with future := Function.update s.future c (Future.ended (w.raises c)) } := by
  have hs := h.stands c
  rw [hf] at hs
  refine accounts_future h (by rw [hf]; simp) hs.finish h.once (fun d => ?_)
  rw [h.executed d]
  by_cases hdc : d = c
  · subst hdc
    rw [Function.update_self, hf]
    cases w.raises d <;> simp [Future.ended, Future.begun]
  · rw [Function.update_of_ne hdc]

/-- **Completing one more chunk** counts one more. -/
theorem countP_completed (hn : w.dag.order.Nodup) {c : κ} (hc : c ∈ w.dag.order) {status : κ → ChunkStatus}
    (hst : status c = .inProgress) (hi : initial c = .pending) :
    w.dag.order.countP (fun d => initial d = .pending ∧ Function.update status c .completed d = .completed) =
      w.dag.order.countP (fun d => initial d = .pending ∧ status d = .completed) + 1 := by
  have hkey := Lib.countP_ne_key id
    (fun d => decide (initial d = .pending ∧ Function.update status c .completed d = .completed)) w.dag.order
    (by rwa [List.map_id]) hc
  rw [if_pos (by simp [hi])] at hkey
  rw [← hkey]
  congr 1
  refine List.countP_congr (fun d _ => ?_)
  by_cases hdc : d = c
  · subst hdc
    simp [hst]
  · simp [hdc]

theorem accounts_settle (hb : Bookkeeping w s) (h : Accounts w initial s) {c : κ} {rest : List κ}
    (hp : s.pool.phase = .settling (c :: rest)) (ok : Bool) (hf : s.future c = Future.ended (!ok))
    (failure : Option (PoolError κ)) :
    Accounts w initial { s with pool := s.pool.settle c rest ok, failure := failure } := by
  have hc := (hb.head hp).1
  obtain ⟨hi, hst, -, hord⟩ := h.of_mem hc
  have hraises : w.raises c = !ok := by
    have hs := h.stands c
    rw [hst] at hs
    have hend := (hs.of_finished (by rw [hf]; cases ok <;> rfl)).2
    exact ended_injective (hend.symm.trans hf)
  have hkeep : ∀ d, s.pool.status d = .completed → (s.pool.settle c rest ok).status d = .completed := by
    intro d hd
    have hdc : d ≠ c := by
      rintro rfl
      rw [hst] at hd
      cases hd
    rw [Pool.settle_status, Function.update_of_ne hdc]
    exact hd
  refine ⟨fun d => ?_, h.inOrder, fun d hd x hx => hkeep x (h.met d hd x hx), h.once, h.executed, ?_⟩
  · show Stands (w.raises d) (initial d) ((s.pool.settle c rest ok).status d) (s.future d)
      (decide (d ∈ (s.pool.settle c rest ok).inFlight))
    rw [Pool.settle_status, Pool.settle_inFlight]
    by_cases hdc : d = c
    · subst hdc
      rw [Function.update_self, hi, hf, ← hraises, decide_eq_false (fun hm => (hb.nodup.mem_erase_iff.1 hm).1 rfl),
        show ok = !w.raises d by rw [hraises, Bool.not_not]]
      exact Stands.settle (w.raises d)
    · rw [Function.update_of_ne hdc, decide_eq_decide.2 (List.mem_erase_of_ne hdc)]
      exact h.stands d
  · show (s.pool.settle c rest ok).completed = w.dag.order.countP
      (fun d => initial d = .pending ∧ (s.pool.settle c rest ok).status d = .completed)
    cases ok with
    | true =>
      rw [Pool.settle_status, if_pos rfl, countP_completed w.dag.nodup hord hst hi, ← h.counted, Pool.settle, if_pos rfl]
    | false =>
      rw [Pool.settle_false]
      refine h.counted.trans (List.countP_congr (fun d _ => ?_))
      by_cases hdc : d = c
      · subst hdc
        simp [hst]
      · simp [hdc]

theorem accounts_effect (hb : Bookkeeping w s) (h : Accounts w initial s) (he : Effect w s s') :
    Accounts w initial s' := by
  cases he with
  | turn hp => exact accounts_turn hb h hp
  | begin hf => exact accounts_begin h hf
  | finish hf => exact accounts_finish h hf
  | wake hp hne hn hall => exact ⟨h.stands, h.inOrder, h.met, h.once, h.executed, h.counted⟩
  | complete hp hf => exact accounts_settle hb h hp true hf _
  | fail hp hf => exact accounts_settle hb h hp false hf _
  | exit hp hall => exact ⟨h.stands, h.inOrder, h.met, h.once, h.executed, h.counted⟩

/-! ## How a run ends -/

/-- The chunks start as this run's to do, or as done. -/
def Startable (w : WorkerPool κ) (initial : κ → ChunkStatus) : Prop :=
  ∀ c ∈ w.dag.order, initial c = .pending ∨ initial c = .completed

omit [DecidableEq κ] in
theorem Stands.of_idle {raises : Bool} {i st : ChunkStatus} {f : Future} (h : Stands raises i st f false)
    (hi : i = .pending ∨ i = .completed) (hfail : st ≠ .failed) : st = .pending ∨ st = .completed := by
  cases h with
  | untouched => exact hi
  | completed => exact Or.inr rfl
  | failed => exact absurd rfl hfail

/-- **Nothing in flight and nothing ready means all completed.** -/
theorem all_completed_of_stalled (hi : Startable w initial) (h : Accounts w initial s)
    (hfail : ∀ c ∈ w.dag.order, s.pool.status c ≠ .failed) (hnone : s.pool.inFlight = [])
    (hready : readyChunks w.dag s.pool.status = []) : ∀ c ∈ w.dag.order, s.pool.status c = .completed := by
  have hidle : ∀ c ∈ w.dag.order, s.pool.status c = .pending ∨ s.pool.status c = .completed := by
    intro c hc
    have hs := h.stands c
    rw [hnone, decide_eq_false List.not_mem_nil] at hs
    exact hs.of_idle (hi c hc) (hfail c hc)
  exact all_completed_of_none_ready hidle hready

omit [DecidableEq κ] in
theorem ending_start (w : WorkerPool κ) (hi : Startable w initial) (assigned : κ → Option String) :
    Ending w (start initial assigned) where
  fine _ := by
    refine ⟨by simp [start, Pool.start], fun c hc => ?_, fun hp => by cases hp⟩
    show initial c ≠ .failed
    rcases hi c hc with he | he <;> simp [he]
  bad e he := by cases he
  outcome o ho := by cases ho

omit [DecidableEq κ] in
theorem Ending.failure_eq_none (h : Ending w s) (hp : s.pool.phase ≠ .leaving true) : s.failure = none := by
  cases he : s.failure with
  | none => rfl
  | some e => exact absurd (h.bad e he).1 hp

omit [DecidableEq κ] in
theorem outcome_ne_some (ho : s.outcome = none) {o : Except (PoolError κ) (List κ)} (h : s.outcome = some o) : False := by
  rw [ho] at h
  cases h

theorem ending_turn (hi : Startable w initial) (hb : Bookkeeping w s) (ha : Accounts w initial s) (h : Ending w s)
    (ho : s.outcome = none) (hp : s.pool.phase = .looping) : Ending w (w.turn s) := by
  obtain ⟨-, hfail, -⟩ := h.fine (h.failure_eq_none (by rw [hp]; simp))
  rcases turn_spec hb ha hp with ⟨htotal, he⟩ | ⟨hlt, p, taken, -, ht, he⟩
  · rw [he]
    exact ⟨fun _ => ⟨by simp, hfail, fun _ => htotal⟩, fun e he => (by cases he),
      fun o hout => (outcome_ne_some ho hout).elim⟩
  · have hfail' : ∀ c ∈ w.dag.order, p.status c ≠ .failed := by
      intro c hc
      rw [ht.status c]
      split
      · simp
      · exact hfail c hc
    rw [he]
    by_cases hnone : p.inFlight = []
    · rw [if_pos hnone, if_pos hnone]
      refine ⟨fun he => (by cases he), fun e he => ?_, fun o hout => (outcome_ne_some ho hout).elim⟩
      · cases he
        refine ⟨rfl, Or.inr ⟨rfl, fun c hc => (status_claimed ht c).2 ?_, by rw [ht.completed]; exact hlt⟩⟩
        -- no chunk was taken though a slot was free: none was ready
        obtain ⟨hflight, -, hready⟩ := ht.eq_nil w.positive hnone
        exact all_completed_of_stalled hi ha hfail hflight hready c hc
    · rw [if_neg hnone, if_neg hnone]
      exact ⟨fun _ => ⟨by simp, hfail', fun hl => by cases hl⟩, fun e he => (by cases he),
        fun o hout => (outcome_ne_some ho hout).elim⟩

theorem ending_complete (h : Ending w s) (ho : s.outcome = none) {c : κ} {rest : List κ}
    (hp : s.pool.phase = .settling (c :: rest)) : Ending w { s with pool := s.pool.settle c rest true } := by
  have hnone := h.failure_eq_none (by rw [hp]; simp)
  have hphase : ∀ raised, (s.pool.settle c rest true).phase ≠ .leaving raised := by
    intro raised
    rw [Pool.settle_true_phase]
    split <;> simp
  refine ⟨fun _ => ⟨hphase true, fun d hd => ?_, fun hl => absurd hl (hphase false)⟩, fun e he => ?_,
    fun o hout => (outcome_ne_some ho hout).elim⟩
  · show (s.pool.settle c rest true).status d ≠ .failed
    rw [Pool.settle_status]
    by_cases hdc : d = c
    · subst hdc
      simp
    · rw [Function.update_of_ne hdc]
      exact (h.fine hnone).2.1 d hd
  · rw [show s.failure = some e from he] at hnone
    cases hnone

theorem ending_effect (hi : Startable w initial) (hb : Bookkeeping w s) (ha : Accounts w initial s) (h : Ending w s)
    (ho : s.outcome = none) (he : Effect w s s') : Ending w s' := by
  cases he with
  | turn hp => exact ending_turn hi hb ha h ho hp
  | begin hf => exact ⟨h.fine, h.bad, fun o hout => (outcome_ne_some ho hout).elim⟩
  | finish hf => exact ⟨h.fine, h.bad, fun o hout => (outcome_ne_some ho hout).elim⟩
  | wake hp hne hn hall =>
    refine ⟨fun hf => ⟨by simp, (h.fine hf).2.1, fun hl => by cases hl⟩, fun e he => ?_,
      fun o hout => (outcome_ne_some ho hout).elim⟩
    have hphase := (h.bad e he).1
    rw [hp] at hphase
    cases hphase
  | complete hp hf => exact ending_complete h ho hp
  | @fail c rest hp hf =>
    refine ⟨fun hn => (by cases hn), fun e he => ?_, fun o hout => (outcome_ne_some ho hout).elim⟩
    cases he
    rw [Pool.settle_false]
    exact ⟨rfl, Or.inl ⟨c, (ha.of_mem (hb.head hp).1).2.2.2, rfl, Function.update_self _ _ _⟩⟩
  | exit hp hall =>
    refine ⟨h.fine, h.bad, fun o hout => ?_⟩
    cases hout
    exact ⟨rfl, ⟨_, hp⟩, hall⟩

theorem inv_start (w : WorkerPool κ) (hi : Startable w initial) (assigned : κ → Option String) :
    Inv w initial (start initial assigned) :=
  ⟨bookkeeping_start w initial assigned, accounts_start w initial assigned, ending_start w hi assigned⟩

/-- **Every step keeps the run in order.** -/
theorem inv_effect (hi : Startable w initial) (h : Inv w initial s) (ho : s.outcome = none) (he : Effect w s s') :
    Inv w initial s' :=
  ⟨bookkeeping_effect h.books h.accounts he, accounts_effect h.books h.accounts he,
    ending_effect hi h.books h.accounts h.ending ho he⟩

/-! ## Every run ends -/

def futureWeight : Future → Nat
  | .unsubmitted | .submitted => 2
  | .running => 1
  | .returned | .raised => 0

def statusWeight : ChunkStatus → Nat
  | .pending | .inProgress => 1
  | .completed | .failed => 0

def phaseWeight : PoolPhase κ → Nat
  | .looping => 3
  | .waiting => 2
  | .settling _ => 1
  | .leaving _ => 1

omit [DecidableEq κ] in
theorem phaseWeight_pos (phase : PoolPhase κ) : 0 < phaseWeight phase := by
  cases phase <;> simp [phaseWeight]

omit [DecidableEq κ] in
theorem phaseWeight_le (phase : PoolPhase κ) : phaseWeight phase ≤ 3 := by
  cases phase <;> simp [phaseWeight]

omit [DecidableEq κ] in
/-- Work taken off one chunk, with none added elsewhere, pays for any move of the loop. -/
theorem weighed_lt_of_work {order : List κ} {before after : κ → Nat} {phase phase' : PoolPhase κ}
    (hle : ∀ d ∈ order, after d ≤ before d) {c : κ} (hc : c ∈ order) (hlt : after c < before c)
    (hphase : phaseWeight phase' ≤ phaseWeight phase + 2) :
    3 * (order.map after).sum + phaseWeight phase' < 3 * (order.map before).sum + phaseWeight phase := by
  have hsum := List.sum_lt_sum (l := order) after before hle ⟨c, hc, hlt⟩
  omega

omit [DecidableEq κ] in
theorem weighed_lt_of_phase {order : List κ} {before after : κ → Nat} {phase phase' : PoolPhase κ}
    (hle : ∀ d, after d ≤ before d) (hphase : phaseWeight phase' < phaseWeight phase) :
    3 * (order.map after).sum + phaseWeight phase' < 3 * (order.map before).sum + phaseWeight phase := by
  have hsum := List.sum_le_sum (l := order) (f := after) (g := before) (fun d _ => hle d)
  omega

def weight (s : PoolRun κ) (c : κ) : Nat := futureWeight (s.future c) + statusWeight (s.pool.status c)

/-- What is left of a run: what its chunks have before them, and where its loop stands. -/
def measure (w : WorkerPool κ) (s : PoolRun κ) : Nat :=
  if s.outcome.isSome then 0 else 3 * (w.dag.order.map (weight s)).sum + phaseWeight s.pool.phase

omit [DecidableEq κ] in
theorem measure_of_live (ho : s.outcome = none) :
    measure w s = 3 * (w.dag.order.map (weight s)).sum + phaseWeight s.pool.phase := by
  rw [measure, ho]
  rfl

omit [DecidableEq κ] in
theorem measure_lt_of_work (ho : s.outcome = none) (ho' : s'.outcome = none) (hle : ∀ d, weight s' d ≤ weight s d) {c : κ}
    (hc : c ∈ w.dag.order) (hlt : weight s' c < weight s c)
    (hphase : phaseWeight s'.pool.phase ≤ phaseWeight s.pool.phase + 2) : measure w s' < measure w s := by
  rw [measure_of_live ho, measure_of_live ho']
  exact weighed_lt_of_work (fun d _ => hle d) hc hlt hphase

omit [DecidableEq κ] in
theorem measure_lt_of_phase (ho : s.outcome = none) (ho' : s'.outcome = none) (hle : ∀ d, weight s' d ≤ weight s d)
    (hphase : phaseWeight s'.pool.phase < phaseWeight s.pool.phase) : measure w s' < measure w s := by
  rw [measure_of_live ho, measure_of_live ho']
  exact weighed_lt_of_phase hle hphase

theorem weight_turn_le (hb : Bookkeeping w s) (ha : Accounts w initial s) (hp : s.pool.phase = .looping) (d : κ) :
    weight (w.turn s) d ≤ weight s d := by
  rcases turn_spec hb ha hp with ⟨-, he⟩ | ⟨-, p, taken, -, ht, he⟩
  · rw [he]
    exact Nat.le_refl _
  · rw [he]
    show futureWeight (if d ∈ taken then .submitted else s.future d) + statusWeight (p.status d) ≤ _
    rw [ht.status d, weight]
    by_cases hd : d ∈ taken
    · have hst := (mem_readyChunks.1 (ht.sub.subset hd)).2.1
      have hs := ha.stands d
      rw [hst] at hs
      rw [if_pos hd, if_pos hd, hst, hs.of_pending.2.1]
      exact Nat.le_refl _
    · rw [if_neg hd, if_neg hd]

theorem phase_turn (w : WorkerPool κ) (s : PoolRun κ) : phaseWeight (w.turn s).pool.phase < 3 := by
  show phaseWeight (s.pool.turn w.dag w.maxParallel).phase < 3
  unfold Pool.turn
  dsimp only
  split
  · show 1 < 3
    omega
  · split
    · show 1 < 3
      omega
    · show 2 < 3
      omega

theorem measure_settle (h : Inv w initial s) (ho : s.outcome = none) {c : κ} {rest : List κ}
    (hp : s.pool.phase = .settling (c :: rest)) (ok : Bool) (failure : Option (PoolError κ)) :
    measure w { s with pool := s.pool.settle c rest ok, failure := failure } < measure w s := by
  obtain ⟨-, hst, -, hord⟩ := h.accounts.of_mem (h.books.head hp).1
  have hlt : statusWeight (if ok = true then .completed else .failed) < statusWeight (s.pool.status c) := by
    rw [hst]
    cases ok <;> decide
  refine measure_lt_of_work (c := c) ho ho (fun d => Nat.add_le_add_left ?_ _) hord (Nat.add_lt_add_left ?_ _) ?_
  · show statusWeight ((s.pool.settle c rest ok).status d) ≤ statusWeight (s.pool.status d)
    rw [Pool.settle_status]
    by_cases hdc : d = c
    · rw [hdc, Function.update_self]
      exact Nat.le_of_lt hlt
    · rw [Function.update_of_ne hdc]
  · show statusWeight ((s.pool.settle c rest ok).status c) < statusWeight (s.pool.status c)
    rw [Pool.settle_status, Function.update_self]
    exact hlt
  · rw [hp]
    exact phaseWeight_le _

/-- **Every step leaves less to do.** -/
theorem measure_effect (h : Inv w initial s) (ho : s.outcome = none) (he : Effect w s s') : measure w s' < measure w s := by
  have hupdate : ∀ {c : κ} {f : Future}, futureWeight f < futureWeight (s.future c) → ∀ d,
      futureWeight (Function.update s.future c f d) ≤ futureWeight (s.future d) := by
    intro c f hlt d
    by_cases hdc : d = c
    · rw [hdc, Function.update_self]
      exact Nat.le_of_lt hlt
    · rw [Function.update_of_ne hdc]
  cases he with
  | turn hp =>
    refine measure_lt_of_phase ho ho (weight_turn_le h.books h.accounts hp) ?_
    rw [hp]
    exact phase_turn w s
  | @begin c hf =>
    have hlt : futureWeight .running < futureWeight (s.future c) := by rw [hf]; decide
    refine measure_lt_of_work (c := c) ho ho (fun d => Nat.add_le_add_right (hupdate hlt d) _)
      (h.accounts.inOrder c (by rw [hf]; simp)) (Nat.add_lt_add_right ?_ _) (Nat.le_add_right _ _)
    show futureWeight (Function.update s.future c .running c) < _
    rw [Function.update_self]
    exact hlt
  | @finish c hf =>
    have hlt : futureWeight (Future.ended (w.raises c)) < futureWeight (s.future c) := by
      rw [hf]
      cases w.raises c <;> decide
    refine measure_lt_of_work (c := c) ho ho (fun d => Nat.add_le_add_right (hupdate hlt d) _)
      (h.accounts.inOrder c (by rw [hf]; simp)) (Nat.add_lt_add_right ?_ _) (Nat.le_add_right _ _)
    show futureWeight (Function.update s.future c (Future.ended (w.raises c)) c) < _
    rw [Function.update_self]
    exact hlt
  | wake hp hne hn hall =>
    refine measure_lt_of_phase ho ho (fun d => Nat.le_refl _) ?_
    rw [hp]
    show 1 < 2
    omega
  | complete hp hf => exact measure_settle h ho hp true _
  | fail hp hf => exact measure_settle h ho hp false _
  | exit hp hall =>
    have hpos := phaseWeight_pos s.pool.phase
    rw [measure_of_live ho]
    show 0 < _
    omega

/-- **A run that has not ended goes on.** -/
theorem exists_effect (h : Inv w initial s) : ∃ s', Effect w s s' := by
  cases hp : s.pool.phase with
  | looping => exact ⟨_, .turn hp⟩
  | waiting =>
    obtain ⟨c, hc⟩ := List.exists_mem_of_ne_nil _ (h.books.waiting hp)
    cases hf : s.future c with
    | unsubmitted => exact absurd hf (h.accounts.of_mem hc).2.2.1
    | submitted => exact ⟨_, .begin hf⟩
    | running => exact ⟨_, .finish hf⟩
    | _ =>
      refine ⟨_, .wake hp (List.cons_ne_nil c []) (List.nodup_singleton c) (fun d hd => ?_)⟩
      rw [List.mem_singleton.1 hd, hf]
      exact ⟨hc, rfl⟩
  | settling done =>
    obtain ⟨hne, -, hall⟩ := h.books.settling done hp
    cases done with
    | nil => exact absurd rfl hne
    | cons c rest =>
      have hf := (hall c List.mem_cons_self).2
      cases hc : s.future c with
      | returned => exact ⟨_, .complete hp hc⟩
      | raised => exact ⟨_, .fail hp hc⟩
      | _ => rw [hc] at hf; cases hf
  | leaving raised =>
    by_cases hall : ∀ c ∈ w.dag.order, (s.future c).active = false
    · exact ⟨_, .exit hp hall⟩
    · push Not at hall
      obtain ⟨c, -, hc⟩ := hall
      cases hf : s.future c with
      | submitted => exact ⟨_, .begin hf⟩
      | running => exact ⟨_, .finish hf⟩
      | _ => rw [hf] at hc; exact absurd rfl hc

/-! ## Runs from a start -/

def Ended (s : PoolRun κ) : Prop := s.outcome.isSome = true

theorem inv_run (hi : Startable w initial) {assigned : κ → Option String} {as : List (PoolAct κ)}
    (hr : w.machine.run (start initial assigned) as = some s) : Inv w initial s :=
  w.machine.inv_of_run (Inv w initial) (fun _ _ _ h hstep =>
    have he := effect_of_step hstep
    inv_effect hi h he.1 he.2) as _ _ (inv_start w hi assigned) hr

/-- **Every run of a pool ends**, however its executors take turns. -/
theorem terminates (hi : Startable w initial) (assigned : κ → Option String) :
    w.machine.Terminates Ended (start initial assigned) := by
  refine w.machine.terminates_of_measure (Inv w initial) (measure w) (fun s a s' h hstep => ?_) (fun s h => ?_)
    (inv_start w hi assigned)
  · obtain ⟨ho, he⟩ := effect_of_step hstep
    exact ⟨inv_effect hi h ho he, measure_effect h ho he⟩
  · cases ho : s.outcome with
    | some o => exact Or.inl (by rw [Ended, ho]; rfl)
    | none =>
      obtain ⟨s', he⟩ := exists_effect h
      obtain ⟨a, hstep⟩ := step_of_effect ho he
      exact Or.inr ⟨a, s', hstep⟩

omit [DecidableEq κ] in
theorem Stands.of_completed {raises flying : Bool} {i : ChunkStatus} {f : Future}
    (h : Stands raises i .completed f flying) :
    (i = .completed ∧ f = .unsubmitted) ∨ (i = .pending ∧ f = .returned ∧ raises = false) := by
  cases h with
  | untouched => exact Or.inl ⟨rfl, rfl⟩
  | completed hr => exact Or.inr ⟨rfl, rfl, hr⟩

omit [DecidableEq κ] in
theorem Stands.of_failed {raises flying : Bool} {i : ChunkStatus} {f : Future} (h : Stands raises i .failed f flying)
    (hi : i = .pending ∨ i = .completed) : raises = true := by
  cases h with
  | untouched => rcases hi with hi | hi <;> cases hi
  | failed hr => exact hr

theorem Accounts.counted_le (h : Accounts w initial s) : s.pool.completed ≤ w.dag.order.length := by
  rw [h.counted]
  exact List.countP_le_length

/-- **The counter reaches the total** exactly when this run completed every chunk. -/
theorem Accounts.total_iff (h : Accounts w initial s) : w.dag.order.length ≤ s.pool.completed ↔
    ∀ c ∈ w.dag.order, initial c = .pending ∧ s.pool.status c = .completed := by
  have hiff := List.countP_eq_length (p := fun c => decide (initial c = .pending ∧ s.pool.status c = .completed))
    (l := w.dag.order)
  rw [← h.counted] at hiff
  simp only [decide_eq_true_eq] at hiff
  rw [← hiff]
  exact ⟨fun hle => Nat.le_antisymm h.counted_le hle, fun he => he.ge⟩

/-- **The three ways a run ends**: it returns what it completed itself, a chunk failed, or it took what was completed
before it for missing. -/
inductive Outcome (w : WorkerPool κ) (initial : κ → ChunkStatus) (s : PoolRun κ) : Except (PoolError κ) (List κ) → Prop
  | returns (hall : ∀ c ∈ w.dag.order, initial c = .pending ∧ s.pool.status c = .completed) :
      Outcome w initial s (.ok w.dag.order)
  | failed {c : κ} (hc : c ∈ w.dag.order) (hr : w.raises c = true) (hst : s.pool.status c = .failed) :
      Outcome w initial s (.error (.failed c))
  | stalled (hall : ∀ c ∈ w.dag.order, s.pool.status c = .completed) (hsome : ∃ c ∈ w.dag.order, initial c = .completed) :
      Outcome w initial s (.error .stalled)

theorem Inv.outcome (h : Inv w initial s) (hi : Startable w initial) {o : Except (PoolError κ) (List κ)}
    (ho : s.outcome = some o) : Outcome w initial s o := by
  obtain ⟨rfl, ⟨raised, hp⟩, -⟩ := h.ending.outcome o ho
  cases hf : s.failure with
  | none =>
    obtain ⟨hne, -, htotal⟩ := h.ending.fine hf
    have hfalse : s.pool.phase = .leaving false := by
      cases raised
      · exact hp
      · exact absurd hp hne
    exact .returns (h.accounts.total_iff.1 (htotal hfalse))
  | some e =>
    rcases (h.ending.bad e hf).2 with ⟨c, hc, rfl, hst⟩ | ⟨rfl, hall, hlt⟩
    · have hs := h.accounts.stands c
      rw [hst] at hs
      exact .failed hc (hs.of_failed (hi c hc)) hst
    · refine .stalled hall ?_
      by_contra hnone
      push Not at hnone
      have htotal := h.accounts.total_iff.2 (fun c hc => ⟨(hi c hc).resolve_right (hnone c hc), hall c hc⟩)
      omega

/-! ## Everything pending -/

/-- A chunk's dependencies, and theirs. -/
def DependsOn (w : WorkerPool κ) : κ → κ → Prop := Relation.TransGen (fun c d => d ∈ w.dag.deps c)

/-- **What holds at every moment of a run**. -/
structure Safe (w : WorkerPool κ) (s : PoolRun κ) : Prop where
  once : s.executed.Nodup
  after : ∀ c ∈ s.executed, ∀ d ∈ w.dag.deps c, s.pool.status d = .completed
  bound : s.pool.inFlight.length ≤ w.maxParallel
  flying : ∀ c, (s.future c).active = true → c ∈ s.pool.inFlight
  own : s.pool.OwnSlots w.maxParallel
  spared : ∀ c d, w.DependsOn c d → w.raises d = true → c ∉ s.executed

/-- **What a run comes to**: the whole order, or the failure of a chunk that raises. -/
structure Ends (w : WorkerPool κ) (s : PoolRun κ) (o : Except (PoolError κ) (List κ)) : Prop where
  returns : (∀ c ∈ w.dag.order, w.raises c = false) → o = .ok w.dag.order ∧ ∀ c ∈ w.dag.order, s.pool.status c = .completed
  fails : (∃ c ∈ w.dag.order, w.raises c = true) →
    ∃ c ∈ w.dag.order, w.raises c = true ∧ o = .error (.failed c) ∧ s.pool.status c = .failed

omit [DecidableEq κ] in
theorem Stands.of_active {raises flying : Bool} {i st : ChunkStatus} {f : Future} (h : Stands raises i st f flying)
    (hf : f.active = true) : flying = true := by
  cases h with
  | submitted => rfl
  | running => rfl
  | ended => rfl
  | _ => cases hf

/-- **What a completed chunk rests on is completed**, all the way down, and raised nowhere. -/
theorem Accounts.rests (h : Accounts w initial s) (hpending : ∀ c ∈ w.dag.order, initial c = .pending) {c d : κ}
    (hdep : w.DependsOn c d) (hc : s.future c ≠ .unsubmitted) : s.future d ≠ .unsubmitted ∧ w.raises d = false := by
  have hone : ∀ {c d}, d ∈ w.dag.deps c → s.future c ≠ .unsubmitted → s.future d ≠ .unsubmitted ∧ w.raises d = false := by
    intro c d hd hc
    have hs := h.stands d
    rw [h.met c hc d hd, hpending d (w.dag.mem_of_dep (h.inOrder c hc) hd)] at hs
    rcases hs.of_completed with ⟨hi, -⟩ | ⟨-, hf, hr⟩
    · cases hi
    · exact ⟨by rw [hf]; simp, hr⟩
  induction hdep with
  | single hd => exact hone hd hc
  | tail _ hd ih => exact hone hd ih.1

theorem begun_submitted {f : Future} (h : f.begun = true) : f ≠ .unsubmitted := by
  rintro rfl
  cases h

theorem Inv.safe (h : Inv w initial s) (hpending : ∀ c ∈ w.dag.order, initial c = .pending) : Safe w s where
  once := h.accounts.once
  after c hc := h.accounts.met c (begun_submitted ((h.accounts.executed c).1 hc))
  bound := h.books.bound
  flying c hc := of_decide_eq_true ((h.accounts.stands c).of_active hc)
  own := h.books.own
  spared c d hdep hr hc := by
    have hno := (h.accounts.rests hpending hdep (begun_submitted ((h.accounts.executed c).1 hc))).2
    rw [hr] at hno
    cases hno

theorem Inv.ends (h : Inv w initial s) (hpending : ∀ c ∈ w.dag.order, initial c = .pending)
    {o : Except (PoolError κ) (List κ)} (ho : s.outcome = some o) : Ends w s o := by
  cases h.outcome (fun c hc => Or.inl (hpending c hc)) ho with
  | returns hall =>
    refine ⟨fun _ => ⟨rfl, fun c hc => (hall c hc).2⟩, fun ⟨c, hc, hr⟩ => ?_⟩
    have hs := h.accounts.stands c
    rw [(hall c hc).2, (hall c hc).1] at hs
    rcases hs.of_completed with ⟨hi, -⟩ | ⟨-, -, hno⟩
    · cases hi
    · rw [hr] at hno
      cases hno
  | failed hc hr hst =>
    refine ⟨fun hnone => ?_, fun _ => ⟨_, hc, hr, rfl, hst⟩⟩
    rw [hnone _ hc] at hr
    cases hr
  | stalled hall hsome =>
    obtain ⟨c, hc, hi⟩ := hsome
    rw [hpending c hc] at hi
    cases hi

/-- **Everything pending, any slots, any failures**: every run ends; it executes each chunk at most once, after its
dependencies and within the slots, and returns the whole order unless a chunk that raises fails it. -/
theorem schedules_of_pending {limit : Nat} {chunks : List Chunk} {dag : ChunkDAG}
    (h : ChunkDAG.build limit chunks = .ok dag) (n : Int) (hn : 1 ≤ n) (raises : Nat → Bool)
    (status : Nat → ChunkStatus) (assigned : Nat → Option String)
    (hpending : ∀ c ∈ (ChunkDAG.graph h).order, status c = .pending) :
    ∃ w, init (ChunkDAG.graph h) n raises = .ok w ∧ w.dag = ChunkDAG.graph h ∧ w.maxParallel = n.toNat ∧
      w.raises = raises ∧ w.machine.Terminates Ended (start status assigned) ∧
      ∀ as s, w.machine.run (start status assigned) as = some s → Safe w s ∧ ∀ o, s.outcome = some o → Ends w s o := by
  have hstart : ∀ w : WorkerPool Nat, w.dag = ChunkDAG.graph h → Startable w status := fun w hw c hc =>
    Or.inl (hpending c (hw ▸ hc))
  refine ⟨_, dif_neg (by omega), rfl, rfl, rfl, terminates (hstart _ rfl) assigned, fun as s hr => ?_⟩
  have hinv := inv_run (hstart _ rfl) hr
  exact ⟨hinv.safe hpending, fun o ho => hinv.ends hpending ho⟩

theorem chain_accepted : ∃ dag, ChunkDAG.build 900 [⟨"a", []⟩, ⟨"b", ["a"]⟩] = .ok dag := by
  have hbuild : (ChunkDAG.build 900 [⟨"a", []⟩, ⟨"b", ["a"]⟩]).toOption.isSome = true := by decide +kernel
  cases h : ChunkDAG.build 900 [⟨"a", []⟩, ⟨"b", ["a"]⟩] with
  | ok dag => exact ⟨dag, rfl⟩
  | error e =>
    rw [h] at hbuild
    cases hbuild

theorem schedules_chain : ∃ dag, ∃ h : ChunkDAG.build 900 [⟨"a", []⟩, ⟨"b", ["a"]⟩] = .ok dag, ∃ w,
    init (ChunkDAG.graph h) 2 (fun c => c = 0) = .ok w ∧
      w.machine.Terminates Ended (start (fun _ => .pending) (fun _ => none)) := by
  obtain ⟨dag, h⟩ := chain_accepted
  obtain ⟨w, hw, -, -, -, hterm, -⟩ := schedules_of_pending h 2 (by decide) (fun c => c = 0) (fun _ => .pending)
    (fun _ => none) (fun _ _ => rfl)
  exact ⟨dag, h, w, hw, hterm⟩

/-! ## A start with chunks completed before -/

/-- **What a retry is for**: it executes the pending chunks, once each, and returns with everything completed. -/
structure Completes (w : WorkerPool κ) (initial : κ → ChunkStatus) (s : PoolRun κ) (o : Except (PoolError κ) (List κ)) :
    Prop where
  once : s.executed.Nodup
  executed : ∀ c, c ∈ s.executed ↔ c ∈ w.dag.order ∧ initial c = .pending
  returns : o = .ok w.dag.order
  completed : ∀ c ∈ w.dag.order, s.pool.status c = .completed

/-- When everything is completed, this run executed what was pending. -/
theorem Accounts.executed_iff (h : Accounts w initial s) (hall : ∀ c ∈ w.dag.order, s.pool.status c = .completed) (c : κ) :
    c ∈ s.executed ↔ c ∈ w.dag.order ∧ initial c = .pending := by
  rw [h.executed c]
  have hs := h.stands c
  constructor
  · intro hc
    have hord := h.inOrder c (begun_submitted hc)
    rw [hall c hord] at hs
    rcases hs.of_completed with ⟨-, hf⟩ | ⟨hi, -⟩
    · rw [hf] at hc
      cases hc
    · exact ⟨hord, hi⟩
  · rintro ⟨hord, hi⟩
    rw [hall c hord] at hs
    rcases hs.of_completed with ⟨hi', -⟩ | ⟨-, hf, -⟩
    · rw [hi] at hi'
      cases hi'
    · rw [hf]
      rfl

/-- **Executors that return complete everything**, whatever had been completed; but what had been is missed in the end. -/
theorem Inv.retried (h : Inv w initial s) (hi : Startable w initial) (hraises : ∀ c, w.raises c = false)
    {o : Except (PoolError κ) (List κ)} (ho : s.outcome = some o) :
    (∀ c ∈ w.dag.order, s.pool.status c = .completed) ∧
      (∀ c, c ∈ s.executed ↔ c ∈ w.dag.order ∧ initial c = .pending) ∧
      ((o = .ok w.dag.order ∧ ∀ c ∈ w.dag.order, initial c = .pending) ∨
        (o = .error .stalled ∧ ∃ c ∈ w.dag.order, initial c = .completed)) := by
  cases h.outcome hi ho with
  | returns hall =>
    have hdone := fun c hc => (hall c hc).2
    exact ⟨hdone, h.accounts.executed_iff hdone, Or.inl ⟨rfl, fun c hc => (hall c hc).1⟩⟩
  | @failed c hc hr hst =>
    rw [hraises c] at hr
    cases hr
  | stalled hall hsome => exact ⟨hall, h.accounts.executed_iff hall, Or.inr ⟨rfl, hsome⟩⟩

theorem completes_iff_pending (hi : Startable w initial) (hraises : ∀ c, w.raises c = false)
    (assigned : κ → Option String) :
    (w.machine.Terminates Ended (start initial assigned) ∧
      ∀ as s o, w.machine.run (start initial assigned) as = some s → s.outcome = some o → Completes w initial s o) ↔
    ∀ c ∈ w.dag.order, initial c = .pending := by
  refine ⟨fun ⟨hterm, hall⟩ => ?_, fun hpending => ⟨terminates hi assigned, fun as s o hr ho => ?_⟩⟩
  · obtain ⟨as, s, hr, hended⟩ := hterm.exists_final
    obtain ⟨o, ho⟩ := Option.isSome_iff_exists.1 hended
    have hcompletes := hall as s o hr ho
    rcases ((inv_run hi hr).retried hi hraises ho).2.2 with ⟨-, hpending⟩ | ⟨he, -⟩
    · exact hpending
    · rw [hcompletes.returns] at he
      cases he
  · have hinv := inv_run hi hr
    obtain ⟨hdone, hexec, ⟨he, -⟩ | ⟨-, c, hc, hsome⟩⟩ := hinv.retried hi hraises ho
    · exact ⟨hinv.accounts.once, hexec, he, hdone⟩
    · rw [hpending c hc] at hsome
      cases hsome

/-- **A retry completes exactly when nothing was completed before it**: the counter of a run starts at zero and is held
against all chunks. -/
theorem completes_iff {limit : Nat} {chunks : List Chunk} {dag : ChunkDAG}
    (h : ChunkDAG.build limit chunks = .ok dag) (n : Int) (hn : 1 ≤ n)
    (status : Nat → ChunkStatus) (assigned : Nat → Option String)
    (hstart : ∀ c ∈ (ChunkDAG.graph h).order, status c = .pending ∨ status c = .completed) :
    ∃ w, init (ChunkDAG.graph h) n (fun _ => false) = .ok w ∧
      ((w.machine.Terminates Ended (start status assigned) ∧
          ∀ as s o, w.machine.run (start status assigned) as = some s → s.outcome = some o → Completes w status s o) ↔
        ∀ c ∈ (ChunkDAG.graph h).order, status c = .pending) := by
  have hi : Startable ⟨ChunkDAG.graph h, n.toNat, fun _ => false, by omega⟩ status := hstart
  exact ⟨_, dif_neg (by omega), completes_iff_pending hi (fun _ => rfl) assigned⟩

theorem completes_chain : ∃ dag, ∃ h : ChunkDAG.build 900 [⟨"a", []⟩, ⟨"b", ["a"]⟩] = .ok dag, ∃ w,
    init (ChunkDAG.graph h) 1 (fun _ => false) = .ok w ∧
      ∀ as s o, w.machine.run (start (fun _ => .pending) (fun _ => none)) as = some s → s.outcome = some o →
        Completes w (fun _ => .pending) s o := by
  obtain ⟨dag, h⟩ := chain_accepted
  obtain ⟨w, hw, hiff⟩ := completes_iff h 1 (by decide) (fun _ => .pending) (fun _ => none) (fun _ _ => Or.inl rfl)
  exact ⟨dag, h, w, hw, (hiff.2 (fun _ _ => rfl)).2⟩

/-- `WorkerPool(ChunkDAG(chunks), max_parallel_workers, execute)`. -/
def ofChunks (limit : Nat) (chunks : List Chunk) (maxParallel : Int) (raises : Nat → Bool) : Option (WorkerPool Nat) :=
  match h : ChunkDAG.build limit chunks with
  | .ok _ => (init (ChunkDAG.graph h) maxParallel raises).toOption
  | .error _ => none

/-- **A retry with its first chunk done** completes the second and raises. -/
theorem retry_stalls : ∃ w, ofChunks 900 [⟨"a", []⟩, ⟨"b", ["a"]⟩] 1 (fun _ => false) = some w ∧ ∃ s,
    w.machine.run (start (fun c => if c = 0 then .completed else .pending) (fun _ => none))
      [.turn, .begin 1, .finish 1, .wake [1], .settle, .turn, .exit] = some s ∧
    s.outcome = some (.error .stalled) ∧ ∀ c ∈ w.dag.order, s.pool.status c = .completed := by
  obtain ⟨w, hw, hs⟩ := (Option.any_eq_true _ _).1
    (show (ofChunks 900 [⟨"a", []⟩, ⟨"b", ["a"]⟩] 1 (fun _ => false)).any (fun w =>
      (w.machine.run (start (fun c => if c = 0 then .completed else .pending) (fun _ => none))
        [.turn, .begin 1, .finish 1, .wake [1], .settle, .turn, .exit]).any (fun s =>
          decide (s.outcome = some (.error .stalled)) && decide (∀ c ∈ w.dag.order, s.pool.status c = .completed))) = true
      by decide +kernel)
  obtain ⟨s, hr, hs⟩ := (Option.any_eq_true _ _).1 hs
  rw [Bool.and_eq_true, decide_eq_true_eq, decide_eq_true_eq] at hs
  exact ⟨w, hw, s, hr, hs.1, hs.2⟩

end WorkerPool
end Engine
end DevHarness
