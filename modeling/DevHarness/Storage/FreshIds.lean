import DevHarness.Storage.Saver
import DevHarness.Lib.Machine
/-!
# FreshIds — generated checkpoint ids under several savers, prunes and quarantines

Savers on one database put into one scope without ids of their own.  A put reads its id off a listing of at most a
hundred rows and inserts later.  `FreshAction` is a step that reads an id no live row has, and inserts one no other put
has read, at a time that fits: along such steps every put stores its row (`putStored_of_freshAction`).
-/
namespace DevHarness
namespace Storage

open Lib

inductive Action where
  | read (saver : ℕ) (args : PutArgs)
  | insert (saver : ℕ)
  | prune (keep : ℕ)
  | quarantine (checkpointId : String) (now : ℤ)

/-- The store, and the puts that have read their id and not inserted yet. -/
structure Savers where
  store : Store
  pending : Dict ℕ (String × PutArgs) := Dict.empty

/-- An insertion: the row goes in, or what it raises rolls back and the put is over. -/
def Savers.insert (sha256 : String → String) (scope : Scope) (s : Savers) (saver : ℕ) (cid : String) (args : PutArgs) :
    Savers :=
  match insertPut sha256 s.store.checkpoints scope cid args with
  | none => { s with pending := s.pending.pop saver }
  | some t => ⟨{ s.store with checkpoints := t }, s.pending.pop saver⟩

def Savers.step (sha256 : String → String) (scope : Scope) (s : Savers) : Action → Option Savers
  | .read saver args => match s.pending.get? saver with
    | some _ => none
    | none => some { s with pending := s.pending.set saver (defaultId s.store.checkpoints scope, args) }
  | .insert saver => match s.pending.get? saver with
    | none => none
    | some (cid, args) => some (s.insert sha256 scope saver cid args)
  | .prune keep => match RetentionPolicy.prune ⟨keep⟩ s.store.checkpoints scope with
    | none => some s
    | some (_, t) => some { s with store := { s.store with checkpoints := t } }
  | .quarantine cid now => match getTuple s.store.checkpoints scope cid with
    | none => none
    | some r => some { s with store := quarantineRow s.store r now }

def saverMachine (sha256 : String → String) (scope : Scope) : Machine Savers Action := ⟨Savers.step sha256 scope⟩

def liveId (t : Table) (scope : Scope) (cid : String) : Bool := t.rows.any (fun r => decide (r.key = (scope, cid)))

theorem liveId_eq_true_iff (t : Table) (scope : Scope) (cid : String) :
    liveId t scope cid = true ↔ (scope, cid) ∈ t.rows.map Row.key := by
  simp [liveId]

/-- **A put's insertion stores its row under an id no live row has.** -/
def PutStored (sha256 : String → String) (scope : Scope) (s : Savers) (l : Action) (s' : Savers) : Prop :=
  match l with
  | .insert saver => ∀ p ∈ s.pending.get? saver,
      liveId s.store.checkpoints scope p.1 = false ∧ putRow sha256 scope p.1 p.2 ∈ s'.store.checkpoints.rows
  | _ => True

/-- **A fresh step**: the id a put reads is not live, the id it inserts no other pending put has read, and its time fits. -/
def FreshAction (scope : Scope) (s : Savers) : Action → Prop
  | .read _ _ => liveId s.store.checkpoints scope (defaultId s.store.checkpoints scope) = false
  | .insert saver => ∀ p ∈ s.pending.get? saver, p.2.Fits ∧ ∀ q ∈ s.pending.items, q.1 ≠ saver → q.2.1 ≠ p.1
  | _ => True

instance (scope : Scope) (s : Savers) : ∀ l, Decidable (FreshAction scope s l)
  | .read _ _ => inferInstanceAs (Decidable (_ = false))
  | .insert saver => inferInstanceAs (Decidable (∀ p ∈ s.pending.get? saver, _ ∧ ∀ q ∈ s.pending.items, _ → _))
  | .prune _ => isTrue trivial
  | .quarantine _ _ => isTrue trivial

def PendingFresh (scope : Scope) (s : Savers) : Prop :=
  ∀ saver p, s.pending.get? saver = some p → liveId s.store.checkpoints scope p.1 = false

theorem liveId_eq_false_of_subset {t t' : Table} {scope : Scope} {cid : String} (h : ∀ r ∈ t'.rows, r ∈ t.rows)
    (hl : liveId t scope cid = false) : liveId t' scope cid = false := by
  rw [← Bool.not_eq_true, liveId_eq_true_iff] at hl ⊢
  intro hm
  obtain ⟨r, hr, hk⟩ := List.mem_map.1 hm
  exact hl (List.mem_map.2 ⟨r, h r hr, hk⟩)

theorem insert_of_fresh (sha256 : String → String) (scope : Scope) (s : Savers) (saver : ℕ) (cid : String)
    (args : PutArgs) (hfits : args.Fits) (h : liveId s.store.checkpoints scope cid = false) :
    (s.insert sha256 scope saver cid args).store.checkpoints.rows =
      s.store.checkpoints.rows ++ [putRow sha256 scope cid args] ∧
    (s.insert sha256 scope saver cid args).pending = s.pending.pop saver := by
  have hkey : (putRow sha256 scope cid args : Row).key ∉ s.store.checkpoints.rows.map Row.key := by
    rw [← Bool.not_eq_true, liveId_eq_true_iff] at h
    exact h
  unfold Savers.insert
  rw [insertPut_of_fits hfits]
  cases hi : s.store.checkpoints.insert (putRow sha256 scope cid args) with
  | none => exact absurd (Table.insert_eq_none_iff.1 hi) hkey
  | some t => exact ⟨(Table.insert_eq_some_iff.1 hi).2, rfl⟩

theorem pendingFresh_read {scope : Scope} {s : Savers} (hinv : PendingFresh scope s) {saver : ℕ} {p : String × PutArgs}
    (hf : liveId s.store.checkpoints scope p.1 = false) :
    PendingFresh scope { s with pending := s.pending.set saver p } := by
  intro sv q hsv
  dsimp only at hsv ⊢
  rw [Dict.get?_set] at hsv
  by_cases he : sv = saver
  · rw [if_pos he] at hsv
    cases hsv
    exact hf
  · rw [if_neg he] at hsv
    exact hinv sv q hsv

/-- A put inserted under an id that no live row and no other pending put has leaves the others' ids free. -/
theorem pendingFresh_insert {sha256 : String → String} {scope : Scope} {s : Savers} (hinv : PendingFresh scope s)
    {saver : ℕ} {cid : String} {args : PutArgs} (hfits : args.Fits)
    (hfresh : liveId s.store.checkpoints scope cid = false)
    (hothers : ∀ sv p, s.pending.get? sv = some p → sv ≠ saver → p.1 ≠ cid) :
    PendingFresh scope (s.insert sha256 scope saver cid args) := by
  obtain ⟨hrows, hpend⟩ := insert_of_fresh sha256 scope s saver cid args hfits hfresh
  intro sv p hsv
  rw [hpend, Dict.get?_pop] at hsv
  by_cases he : sv = saver
  · rw [if_pos he] at hsv
    cases hsv
  · rw [if_neg he] at hsv
    have hne := hothers sv p hsv he
    have hold := hinv sv p hsv
    rw [← Bool.not_eq_true, liveId_eq_true_iff] at hold ⊢
    rw [hrows, List.map_append, List.mem_append, not_or]
    refine ⟨hold, ?_⟩
    simpa [putRow, Row.key] using hne

/-- **A fresh step stores what it inserts and leaves no pending put with a live id.** -/
theorem putStored_of_step {sha256 : String → String} {scope : Scope} {s s' : Savers} {l : Action}
    (hinv : PendingFresh scope s) (hf : FreshAction scope s l) (h : (saverMachine sha256 scope).step s l = some s') :
    PutStored sha256 scope s l s' ∧ PendingFresh scope s' := by
  cases l with
  | read saver args =>
    refine ⟨trivial, ?_⟩
    simp only [saverMachine, Savers.step] at h
    cases hp : s.pending.get? saver with
    | some p => rw [hp] at h; cases h
    | none =>
      rw [hp] at h
      cases h
      exact pendingFresh_read hinv hf
  | insert saver =>
    simp only [saverMachine, Savers.step] at h
    cases hp : s.pending.get? saver with
    | none => rw [hp] at h; cases h
    | some p =>
      obtain ⟨cid, args⟩ := p
      rw [hp] at h
      cases h
      have hfresh := hinv saver (cid, args) hp
      obtain ⟨hfits, hothers⟩ := hf (cid, args) hp
      refine ⟨fun p hp' => ?_, pendingFresh_insert hinv hfits hfresh (fun sv p hsv he => ?_)⟩
      · rw [hp] at hp'
        cases hp'
        exact ⟨hfresh, by rw [(insert_of_fresh sha256 scope s saver cid args hfits hfresh).1]; simp⟩
      · -- another pending put read another id
        exact hothers (sv, p) ((Dict.get?_eq_some_iff _ _ _).1 hsv) he
  | prune keep =>
    refine ⟨trivial, ?_⟩
    simp only [saverMachine, Savers.step] at h
    cases hp : RetentionPolicy.prune ⟨keep⟩ s.store.checkpoints scope with
    | none =>
      rw [hp] at h
      cases h
      exact hinv
    | some p =>
      obtain ⟨n, t⟩ := p
      rw [hp] at h
      cases h
      exact fun sv p hsv => liveId_eq_false_of_subset (fun r hr => mem_of_mem_prune hp hr) (hinv sv p hsv)
  | quarantine cid now =>
    refine ⟨trivial, ?_⟩
    simp only [saverMachine, Savers.step] at h
    cases hg : getTuple s.store.checkpoints scope cid with
    | none => rw [hg] at h; cases h
    | some r =>
      rw [hg] at h
      cases h
      exact fun sv p hsv => liveId_eq_false_of_subset (fun r hr => (Table.mem_delete.1 hr).1) (hinv sv p hsv)

/-- **Along fresh steps every put stores its checkpoint under an id no live row has**, from any store. -/
theorem putStored_of_freshAction (sha256 : String → String) (scope : Scope) (store : Store) (ls : List Action)
    (hfresh : (saverMachine sha256 scope).Along (fun s l _ => FreshAction scope s l) ⟨store, Dict.empty⟩ ls) :
    (saverMachine sha256 scope).Along (PutStored sha256 scope) ⟨store, Dict.empty⟩ ls := by
  refine (saverMachine sha256 scope).along_of_along (PendingFresh scope) ?_ ls ⟨store, Dict.empty⟩ ?_ hfresh
  · intro s l s' hinv hf h
    exact putStored_of_step hinv hf h
  · intro sv p hp
    cases hp

/-! ## One saver -/

def putAlone (rawInput : String) : List Action :=
  [.read 0 ⟨dumpedState rawInput, none, false, none, none, none⟩, .insert 0]

theorem putStored_twice : (saverMachine id ⟨"p", "t"⟩).Along (PutStored id ⟨"p", "t"⟩) ⟨Store.empty, Dict.empty⟩
    (putAlone "a" ++ putAlone "b") :=
  putStored_of_freshAction id ⟨"p", "t"⟩ Store.empty (putAlone "a" ++ putAlone "b") (by decide +kernel)

/-- **A put after a prune is refused**: two puts, a prune that keeps one row, and the next put reads the id of the row
kept; its insertion leaves the table as it was. -/
theorem put_refused_after_prune : ∃ s s' : Savers,
    (saverMachine id ⟨"p", "t"⟩).run ⟨Store.empty, Dict.empty⟩
      (putAlone "a" ++ putAlone "b" ++ [.prune 1, .read 0 ⟨dumpedState "c", none, false, none, none, none⟩]) = some s ∧
    (saverMachine id ⟨"p", "t"⟩).step s (.insert 0) = some s' ∧
    s.pending.get? 0 = some ("cp_1", ⟨dumpedState "c", none, false, none, none, none⟩) ∧
    liveId s.store.checkpoints ⟨"p", "t"⟩ "cp_1" = true ∧ s'.store = s.store ∧
    ¬ PutStored id ⟨"p", "t"⟩ s (.insert 0) s' := by
  let before := (saverMachine id ⟨"p", "t"⟩).run ⟨Store.empty, Dict.empty⟩
    (putAlone "a" ++ putAlone "b" ++ [.prune 1, .read 0 ⟨dumpedState "c", none, false, none, none, none⟩])
  have hrun : before.any (fun s => ((saverMachine id ⟨"p", "t"⟩).step s (.insert 0)).any (fun s' => decide (
      s.pending.get? 0 = some ("cp_1", ⟨dumpedState "c", none, false, none, none, none⟩) ∧
      liveId s.store.checkpoints ⟨"p", "t"⟩ "cp_1" = true ∧ s'.store = s.store))) = true := by decide +kernel
  obtain ⟨s, hs, hstep⟩ := (Option.any_eq_true _ _).1 hrun
  obtain ⟨s', hs', hfacts⟩ := (Option.any_eq_true _ _).1 hstep
  rw [decide_eq_true_eq] at hfacts
  obtain ⟨hp, hlive, hsame⟩ := hfacts
  refine ⟨s, s', hs, hs', hp, hlive, hsame, fun hput => ?_⟩
  obtain ⟨hno, -⟩ := hput _ hp
  rw [hlive] at hno
  cases hno

end Storage
end DevHarness
