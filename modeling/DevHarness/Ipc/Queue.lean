import DevHarness.Contracts
import DevHarness.Lib.Machine
import Mathlib.Data.List.Sublists
/-!
# Queue — the backpressure queue over a history of puts and gets (`ipc/queue.py`)

What was put, what was accepted and what `get` returned is kept beside the queue.  Whatever the history, the queue
never outgrows its capacity, keeps the order, and counts what it sheds (`Conserves`); a control event is shed exactly
when a token finds the queue full with a control event at its head (`lossless_iff_keepsControl`).
-/
namespace DevHarness
namespace Ipc

open Lib

variable {π : Type}

/-! ## The queue -/

structure BackpressureQueue (π : Type) where
  capacity : ℕ := 2048
  droppedFrames : ℕ := 0
  items : List (Envelope π) := []
  deriving DecidableEq

def droppable (e : Envelope π) : Bool := decide (e.type = .agentTokenStream)

namespace BackpressureQueue

def isFull (q : BackpressureQueue π) : Bool := decide (q.capacity ≤ q.items.length)

/-- `put`: whether the envelope was accepted, and the queue; `none` is the `IndexError` of shedding from an empty
queue. -/
def put (q : BackpressureQueue π) (e : Envelope π) : Option (Bool × BackpressureQueue π) :=
  if droppable e then
    if q.isFull then match q.items with
      | [] => none
      | _ :: rest => some (true, { q with items := rest ++ [e], droppedFrames := q.droppedFrames + 1 })
    else some (true, { q with items := q.items ++ [e] })
  else if q.isFull then
    -- the oldest token makes room, and without one the event is refused
    if q.items.any droppable then
      some (true, { q with items := q.items.eraseP droppable ++ [e], droppedFrames := q.droppedFrames + 1 })
    else some (false, q)
  else some (true, { q with items := q.items ++ [e] })

def get (q : BackpressureQueue π) : Option (Envelope π) × BackpressureQueue π :=
  match q.items with
  | [] => (none, q)
  | e :: rest => (some e, { q with items := rest })

/-- **What a put does**: it appends, after shedding the oldest item for a token or the oldest token for a control event,
or refuses a control event among control events. -/
theorem put_cases (q : BackpressureQueue π) (e : Envelope π) {r : Bool × BackpressureQueue π} (h : q.put e = some r) :
    (q.isFull = false ∧ r = (true, { q with items := q.items ++ [e] })) ∨
    (q.isFull = true ∧ droppable e = true ∧ ∃ x rest, q.items = x :: rest ∧
      r = (true, { q with items := rest ++ [e], droppedFrames := q.droppedFrames + 1 })) ∨
    (q.isFull = true ∧ droppable e = false ∧ (∃ x ∈ q.items, droppable x = true) ∧
      r = (true, { q with items := q.items.eraseP droppable ++ [e], droppedFrames := q.droppedFrames + 1 })) ∨
    (q.isFull = true ∧ droppable e = false ∧ r = (false, q)) := by
  unfold put at h
  cases hd : droppable e with
  | true =>
    rw [hd, if_pos rfl] at h
    cases hf : q.isFull with
    | true =>
      rw [hf, if_pos rfl] at h
      cases hi : q.items with
      | nil => rw [hi] at h; cases h
      | cons x rest =>
        rw [hi] at h
        cases h
        exact Or.inr (Or.inl ⟨rfl, rfl, x, rest, rfl, rfl⟩)
    | false =>
      rw [hf, if_neg Bool.false_ne_true] at h
      cases h
      exact Or.inl ⟨rfl, rfl⟩
  | false =>
    rw [hd, if_neg Bool.false_ne_true] at h
    cases hf : q.isFull with
    | true =>
      rw [hf, if_pos rfl] at h
      by_cases ha : q.items.any droppable = true
      · rw [if_pos ha] at h
        cases h
        exact Or.inr (Or.inr (Or.inl ⟨rfl, rfl, List.any_eq_true.1 ha, rfl⟩))
      · rw [if_neg ha] at h
        cases h
        exact Or.inr (Or.inr (Or.inr ⟨rfl, rfl, rfl⟩))
    | false =>
      rw [hf, if_neg Bool.false_ne_true] at h
      cases h
      exact Or.inl ⟨rfl, rfl⟩

theorem get_cases (q : BackpressureQueue π) :
    (q.items = [] ∧ q.get = (none, q)) ∨
      ∃ e rest, q.items = e :: rest ∧ q.get = (some e, { q with items := rest }) := by
  unfold get
  cases hi : q.items with
  | nil => exact Or.inl ⟨rfl, rfl⟩
  | cons e rest => exact Or.inr ⟨e, rest, rfl, rfl⟩

theorem put_isSome (q : BackpressureQueue π) (hcap : 1 ≤ q.capacity) (e : Envelope π) : (q.put e).isSome = true := by
  unfold put
  split
  · split
    · rename_i hf
      have hlen : q.capacity ≤ q.items.length := by simpa [isFull] using hf
      cases hi : q.items with
      | nil => rw [hi, List.length_nil] at hlen; omega
      | cons x rest => rfl
    · rfl
  · split
    · split <;> rfl
    · rfl

theorem put_capacity (q : BackpressureQueue π) (e : Envelope π) {r : Bool × BackpressureQueue π} (h : q.put e = some r) :
    r.2.capacity = q.capacity := by
  rcases q.put_cases e h with ⟨-, rfl⟩ | ⟨-, -, x, rest, -, rfl⟩ | ⟨-, -, -, rfl⟩ | ⟨-, -, rfl⟩ <;> rfl

/-- A put appends to what it leaves, or is refused by a full queue; a control event at the head stays there, unless a
token finds the queue full. -/
theorem put_items (q : BackpressureQueue π) (e : Envelope π) {r : Bool × BackpressureQueue π} (h : q.put e = some r) :
    (r.2.items = q.items ∧ q.isFull = true) ∨ ∃ left, left.Sublist q.items ∧ r.2.items = left ++ [e] ∧
      ((droppable e = true → q.isFull = false) → q.items.head?.all (fun x => !droppable x) = true →
        left.head? = q.items.head?) := by
  rcases q.put_cases e h with ⟨-, rfl⟩ | ⟨hf, hd, x, rest, hi, rfl⟩ | ⟨-, -, -, rfl⟩ | ⟨hf, -, rfl⟩
  · exact Or.inr ⟨q.items, List.Sublist.refl _, rfl, fun _ _ => rfl⟩
  · refine Or.inr ⟨rest, hi ▸ List.sublist_cons_self x rest, rfl, fun hroom => ?_⟩
    rw [hroom hd] at hf
    cases hf
  · refine Or.inr ⟨q.items.eraseP droppable, List.eraseP_sublist, rfl, fun _ hhead => ?_⟩
    cases hi : q.items with
    | nil => rfl
    | cons x rest =>
      have hx : droppable x = false := by simpa [hi] using hhead
      rw [List.eraseP_cons_of_neg (by rw [hx]; exact Bool.false_ne_true)]
      rfl
  · exact Or.inl ⟨rfl, hf⟩

/-! ## Emptying the queue -/

/-- The loop of `get` until it returns nothing, as often as the fuel allows. -/
def getAll : ℕ → BackpressureQueue π → List (Envelope π) × BackpressureQueue π
  | 0, q => ([], q)
  | n + 1, q => match q.get with
    | (none, q') => ([], q')
    | (some e, q') => (e :: (getAll n q').1, (getAll n q').2)

theorem getAll_eq : ∀ (n : ℕ) (q : BackpressureQueue π), q.items.length < n →
    getAll n q = (q.items, { q with items := [] })
  | 0, _, h => absurd h (Nat.not_lt_zero _)
  | n + 1, q, h => by
    rw [getAll]
    rcases q.get_cases with ⟨hi, hg⟩ | ⟨e, rest, hi, hg⟩
    · rw [hg, hi]
      cases q
      simp_all
    · rw [hi, List.length_cons] at h
      simp only [hg]
      rw [getAll_eq n { q with items := rest } (by simp only; omega), hi]

end BackpressureQueue

/-! ## A history -/

inductive Op (π : Type) where
  | put (e : Envelope π)
  | get

/-- A queue, with what was put, what was accepted and what `get` returned, each in order. -/
structure Traffic (π : Type) where
  queue : BackpressureQueue π
  offered : List (Envelope π) := []
  accepted : List (Envelope π) := []
  returned : List (Envelope π) := []
  deriving DecidableEq

def Traffic.step (t : Traffic π) : Op π → Option (Traffic π)
  | .put e => (t.queue.put e).map (fun r => { t with
      queue := r.2
      offered := t.offered ++ [e]
      accepted := if r.1 then t.accepted ++ [e] else t.accepted })
  | .get => some { t with queue := t.queue.get.2, returned := t.returned ++ t.queue.get.1.toList }

def queueMachine : Machine (Traffic π) (Op π) := ⟨Traffic.step⟩

/-- What was accepted and not shed: returned, or still queued. -/
def Traffic.kept (t : Traffic π) : List (Envelope π) := t.returned ++ t.queue.items

def control (e : Envelope π) : Bool := !droppable e

/-- **No control event is lost**: those returned and queued are those accepted; the tokens kept are a subsequence of
those put; the length is within the capacity; and what was shed is counted, all of it tokens. -/
structure Lossless (t : Traffic π) : Prop where
  controls : t.kept.filter control = t.accepted.filter control
  tokens : (t.kept.filter droppable).Sublist (t.offered.filter droppable)
  bounded : t.queue.items.length ≤ t.queue.capacity
  dropped : t.queue.droppedFrames + t.kept.length = t.accepted.length
  droppedTokens : t.queue.droppedFrames + t.kept.countP droppable = t.accepted.countP droppable

/-- **A put that sheds no control event**: a token finds room, or a token at the head of the queue. -/
def KeepsControl (t : Traffic π) : Op π → Prop
  | .get => True
  | .put e => droppable e = true → t.queue.isFull = true → t.queue.items.head?.all droppable = true

instance (t : Traffic π) : ∀ op, Decidable (KeepsControl t op)
  | .get => inferInstanceAs (Decidable True)
  | .put e => inferInstanceAs (Decidable (droppable e = true → _ → _))

/-! ## What every history keeps -/

/-- Whatever is shed: the length is within the capacity, what is kept is in the order it was accepted, and what is not
was counted. -/
structure Conserves (t : Traffic π) : Prop where
  positive : 1 ≤ t.queue.capacity
  bounded : t.queue.items.length ≤ t.queue.capacity
  ordered : t.kept.Sublist t.accepted
  offered : t.accepted.Sublist t.offered
  dropped : t.queue.droppedFrames + t.kept.length = t.accepted.length

theorem Traffic.kept_get (t : Traffic π) :
    ({ t with queue := t.queue.get.2, returned := t.returned ++ t.queue.get.1.toList } : Traffic π).kept = t.kept := by
  rcases t.queue.get_cases with ⟨hi, hg⟩ | ⟨e, rest, hi, hg⟩
  · simp [Traffic.kept, hg]
  · simp [Traffic.kept, hg, hi]

theorem conserves_get {t : Traffic π} (hinv : Conserves t) :
    Conserves { t with queue := t.queue.get.2, returned := t.returned ++ t.queue.get.1.toList } := by
  have hkept := t.kept_get
  have hlen : t.queue.get.2.items.length ≤ t.queue.items.length ∧ t.queue.get.2.capacity = t.queue.capacity ∧
      t.queue.get.2.droppedFrames = t.queue.droppedFrames := by
    rcases t.queue.get_cases with ⟨hi, hg⟩ | ⟨e, rest, hi, hg⟩
    · rw [hg]
      exact ⟨le_refl _, rfl, rfl⟩
    · rw [hg, hi]
      exact ⟨by simp, rfl, rfl⟩
  refine ⟨hlen.2.1 ▸ hinv.positive, hlen.2.1 ▸ hlen.1.trans hinv.bounded, ?_, hinv.offered, ?_⟩
  · rw [hkept]
    exact hinv.ordered
  · rw [hkept]
    exact hlen.2.2 ▸ hinv.dropped

/-- **An accepted envelope**, put behind what is left of the queue, with what is gone counted. -/
theorem Conserves.push {t : Traffic π} (hinv : Conserves t) (e : Envelope π) {left : List (Envelope π)} {dropped : ℕ}
    (hleft : left.Sublist t.queue.items) (hroom : left.length < t.queue.capacity)
    (hcount : dropped + left.length = t.queue.droppedFrames + t.queue.items.length) :
    Conserves { t with
      queue := { t.queue with items := left ++ [e], droppedFrames := dropped }
      offered := t.offered ++ [e]
      accepted := t.accepted ++ [e] } := by
  have hord : (t.returned ++ t.queue.items).Sublist t.accepted := hinv.ordered
  have hdrop : t.queue.droppedFrames + (t.returned ++ t.queue.items).length = t.accepted.length := hinv.dropped
  refine ⟨hinv.positive, ?_, ?_, hinv.offered.append (List.Sublist.refl _), ?_⟩
  · simp only [List.length_append, List.length_singleton]
    omega
  · have hkept : (t.returned ++ left).Sublist t.accepted := ((List.Sublist.refl _).append hleft).trans hord
    simp only [Traffic.kept, ← List.append_assoc]
    exact hkept.append (List.Sublist.refl _)
  · simp only [Traffic.kept, List.length_append, List.length_singleton] at hdrop ⊢
    omega

theorem conserves_step {t t' : Traffic π} {op : Op π} (hinv : Conserves t) (h : queueMachine.step t op = some t') :
    Conserves t' := by
  cases op with
  | get =>
    cases h
    exact conserves_get hinv
  | put e =>
    obtain ⟨r, hr, rfl⟩ := Option.map_eq_some_iff.1 h
    have hbound := hinv.bounded
    rcases t.queue.put_cases e hr with ⟨hf, rfl⟩ | ⟨-, -, x, rest, hi, rfl⟩ | ⟨-, -, hx, rfl⟩ | ⟨-, -, rfl⟩
    · have hroom : t.queue.items.length < t.queue.capacity := by simpa [BackpressureQueue.isFull] using hf
      exact hinv.push e (List.Sublist.refl _) hroom rfl
    · have hlen : t.queue.items.length = rest.length + 1 := by rw [hi, List.length_cons]
      exact hinv.push e (hi ▸ List.sublist_cons_self x rest) (by omega) (by omega)
    · obtain ⟨x, hmem, hdx⟩ := hx
      have hlen := List.length_eraseP_of_mem hmem hdx
      have hpos := List.length_pos_of_mem hmem
      exact hinv.push e List.eraseP_sublist (by omega) (by omega)
    · exact ⟨hinv.positive, hbound, hinv.ordered, hinv.offered.trans (List.sublist_append_left _ _), hinv.dropped⟩

theorem step_isSome {t : Traffic π} (hinv : Conserves t) (op : Op π) : (queueMachine.step t op).isSome = true := by
  cases op with
  | get => rfl
  | put e =>
    show (Option.map _ _).isSome = true
    rw [Option.isSome_map]
    exact t.queue.put_isSome hinv.positive e

theorem run_isSome : ∀ (ops : List (Op π)) {t : Traffic π}, Conserves t → (queueMachine.run t ops).isSome = true
  | [], _, _ => rfl
  | op :: ops, t, hinv => by
    obtain ⟨t', ht⟩ := Option.isSome_iff_exists.1 (step_isSome hinv op)
    rw [Machine.run, ht]
    exact run_isSome ops (conserves_step hinv ht)

/-! ## When no control event is shed -/

theorem filter_eraseP_not {α : Type} (p : α → Bool) : ∀ l : List α,
    (l.eraseP p).filter (fun x => !p x) = l.filter (fun x => !p x)
  | [] => rfl
  | x :: l => by
    cases hx : p x with
    | true => simp [hx]
    | false => simp [hx, filter_eraseP_not p l]

theorem lossless_iff {t : Traffic π} (hinv : Conserves t) :
    Lossless t ↔ t.kept.filter control = t.accepted.filter control := by
  refine ⟨fun h => h.controls, fun h => ⟨h, ?_, hinv.bounded, hinv.dropped, ?_⟩⟩
  · exact (hinv.ordered.trans hinv.offered).filter droppable
  · -- what was shed is all of the difference, and none of it is control
    have hk := List.length_eq_countP_add_countP droppable (l := t.kept)
    have ha := List.length_eq_countP_add_countP droppable (l := t.accepted)
    have hcontrol : t.kept.countP control = t.accepted.countP control := by
      rw [List.countP_eq_length_filter, List.countP_eq_length_filter, h]
    have hdrop := hinv.dropped
    have hsame : ∀ l : List (Envelope π), l.countP (fun e => decide (¬ droppable e = true)) = l.countP control := by
      intro l
      apply List.countP_congr
      intro e _
      simp [control]
    rw [hsame] at hk ha
    omega

/-- Shedding the head of a full queue for a token keeps the control events exactly when the head is a token. -/
theorem shed_controls_iff {x : Envelope π} {pre rest accepted : List (Envelope π)} (e : Envelope π)
    (h : (pre ++ x :: rest).filter control = accepted.filter control) :
    (pre ++ (rest ++ [e])).filter control = (accepted ++ [e]).filter control ↔ droppable x = true := by
  have haccepted : (accepted ++ [e]).filter control = accepted.filter control ++ [e].filter control :=
    List.filter_append _ _
  rw [haccepted, ← h]
  simp only [List.filter_append, List.append_assoc]
  cases hx : droppable x with
  | true => simp [control, hx]
  | false =>
    refine iff_of_false (fun heq => ?_) Bool.false_ne_true
    have hlen := congrArg List.length heq
    simp [control, hx] at hlen

theorem controls_iff_keepsControl {t t' : Traffic π} {op : Op π}
    (hcontrols : t.kept.filter control = t.accepted.filter control) (h : queueMachine.step t op = some t') :
    t'.kept.filter control = t'.accepted.filter control ↔ KeepsControl t op := by
  cases op with
  | get =>
    cases h
    rw [t.kept_get]
    exact iff_of_true hcontrols trivial
  | put e =>
    obtain ⟨r, hr, rfl⟩ := Option.map_eq_some_iff.1 h
    unfold KeepsControl
    unfold Traffic.kept at hcontrols ⊢
    rcases t.queue.put_cases e hr with ⟨hf, rfl⟩ | ⟨hf, hd, x, rest, hi, rfl⟩ | ⟨hf, hd, hx, rfl⟩ | ⟨hf, hd, rfl⟩
    · refine iff_of_true ?_ (fun _ hfull => by rw [hf] at hfull; cases hfull)
      simp only [if_true, ← List.append_assoc]
      rw [List.filter_append, hcontrols, ← List.filter_append]
    · rw [hi] at hcontrols
      simp only [if_true]
      rw [shed_controls_iff e hcontrols, hi]
      simp [hd, hf]
    · refine iff_of_true ?_ (fun hdrop => by rw [hd] at hdrop; cases hdrop)
      have herase : (t.returned ++ t.queue.items.eraseP droppable).filter control =
          (t.returned ++ t.queue.items).filter control := by
        rw [List.filter_append, List.filter_append]
        exact congrArg _ (filter_eraseP_not droppable t.queue.items)
      simp only [if_true, ← List.append_assoc]
      rw [List.filter_append, herase, hcontrols, ← List.filter_append]
    · exact iff_of_true hcontrols (fun hdrop => by rw [hd] at hdrop; cases hdrop)

/-- **Every history of a queue of one slot or more runs, and loses no control event exactly when** each token that finds
the queue full finds a token at its head. -/
theorem lossless_iff_keepsControl (capacity : ℕ) (hcap : 1 ≤ capacity) (ops : List (Op π)) :
    (queueMachine.run ⟨{ capacity }, [], [], []⟩ ops).isSome = true ∧
      (queueMachine.Along (fun _ _ t => Lossless t) ⟨{ capacity }, [], [], []⟩ ops ↔
        queueMachine.Along (fun t op _ => KeepsControl t op) ⟨{ capacity }, [], [], []⟩ ops) := by
  have hinit : Conserves (⟨{ capacity }, [], [], []⟩ : Traffic π) :=
    ⟨hcap, Nat.zero_le _, List.Sublist.refl _, List.Sublist.refl _, rfl⟩
  refine ⟨run_isSome ops hinit, ?_⟩
  refine queueMachine.along_iff_along (fun t => Conserves t ∧ t.kept.filter control = t.accepted.filter control)
    (fun t op t' hi h => ?_) (fun t op t' hi hl h => ⟨conserves_step hi.1 h, hl.controls⟩) ops _ ⟨hinit, rfl⟩
  rw [lossless_iff (conserves_step hi.1 h)]
  exact controls_iff_keepsControl hi.2 h

theorem lossless_iff_keepsControl_tokens :
    (queueMachine.run (⟨{ capacity := 2 }, [], [], []⟩ : Traffic String)
      [.put ⟨.agentTokenStream, 1, "a"⟩, .put ⟨.snapshot, 0, "s"⟩, .put ⟨.agentTokenStream, 2, "b"⟩, .get]).isSome = true ∧
    (queueMachine.Along (fun _ _ t => Lossless t) (⟨{ capacity := 2 }, [], [], []⟩ : Traffic String)
        [.put ⟨.agentTokenStream, 1, "a"⟩, .put ⟨.snapshot, 0, "s"⟩, .put ⟨.agentTokenStream, 2, "b"⟩, .get] ↔
      queueMachine.Along (fun t op _ => KeepsControl t op) (⟨{ capacity := 2 }, [], [], []⟩ : Traffic String)
        [.put ⟨.agentTokenStream, 1, "a"⟩, .put ⟨.snapshot, 0, "s"⟩, .put ⟨.agentTokenStream, 2, "b"⟩, .get]) :=
  lossless_iff_keepsControl 2 (by decide) _

/-- **A token sheds a control event**: it finds a queue of one slot full with a SNAPSHOT. -/
theorem token_sheds_snapshot : ∃ t : Traffic String,
    queueMachine.run ⟨{ capacity := 1 }, [], [], []⟩ [.put ⟨.snapshot, 0, "s"⟩, .put ⟨.agentTokenStream, 1, "a"⟩] =
      some t ∧
    t.accepted.filter control = [⟨.snapshot, 0, "s"⟩] ∧ t.kept.filter control = [] ∧ ¬ Lossless t := by
  refine ⟨⟨⟨1, 1, [⟨.agentTokenStream, 1, "a"⟩]⟩, [⟨.snapshot, 0, "s"⟩, ⟨.agentTokenStream, 1, "a"⟩],
    [⟨.snapshot, 0, "s"⟩, ⟨.agentTokenStream, 1, "a"⟩], []⟩, rfl, rfl, rfl, fun h => ?_⟩
  have hcontrols := h.controls
  revert hcontrols
  decide

end Ipc
end DevHarness
