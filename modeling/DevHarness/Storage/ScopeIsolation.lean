import DevHarness.Lib.Noninterference
import DevHarness.Storage.Quarantine
import DevHarness.Storage.Retention
/-!
# ScopeIsolation — the scopes of one database (`storage/sqlite_saver.py`, `retention.py`, `integrity.py`)

Every session of a workspace writes into one `checkpoints` table and one quarantine table.  A scope's operations come in
any order with those of the others, the reading of a put's default id and its insertion apart.  What a scope is
answered comes from its own rows, copies and pending puts (`ScopeView`), and the other scopes leave these alone.
-/
namespace DevHarness
namespace Storage

open Lib

/-- What is done in one scope.  A put chooses its id by a listing, and inserts later. -/
inductive ScopeOp where
  | choose (call : ℕ) (checkpointId : Option String)
  | insert (call : ℕ) (args : PutArgs)
  | get (checkpointId : String)
  | list (limit offset : ℕ)
  | read (checkpointId : String) (now : ℤ)
  | scan (clock : ℕ → ℤ)
  | prune (policy : RetentionPolicy)
  -- The row under the id, written over from outside.
  | corrupt (checkpointId stateJson stateSha256 : String)

inductive ScopeAnswer where
  | done
  | stored (checkpointId : String)
  | integrityError
  | overflowError
  | operationalError
  | row (r : Option Row)
  | rows (rs : List Row)
  | served (r : Served)
  | quarantined (ids : List String)
  | deleted (n : ℕ)
  deriving DecidableEq

/-- The database, and the ids that puts have chosen and not inserted yet. -/
structure SharedStore where
  store : Store
  chosen : Scope → ℕ → Option String

def SharedStore.empty : SharedStore := ⟨Store.empty, fun _ _ => none⟩

/-- The digest and the state of one row, written over. -/
def Table.rewrite (t : Table) (key : Scope × String) (stateJson stateSha256 : String) : Table where
  rows := t.rows.map (fun r => if r.key = key then { r with stateJson, stateSha256 } else r)
  primaryKey := by
    have hkeys : ((t.rows.map (fun r => if r.key = key then { r with stateJson, stateSha256 } else r)).map Row.key) =
        t.rows.map Row.key := by
      rw [List.map_map]
      refine List.map_congr_left (fun r _ => ?_)
      rw [Function.comp]
      split <;> rfl
    rw [hkeys]
    exact t.primaryKey

namespace SharedStore

def setChosen (s : SharedStore) (scope : Scope) (call : ℕ) (cid : Option String) : SharedStore :=
  { s with chosen := Function.update s.chosen scope (Function.update (s.chosen scope) call cid) }

def setCheckpoints (s : SharedStore) (t : Table) : SharedStore := { s with store := { s.store with checkpoints := t } }

/-- The transaction of a put: the row goes in, or its time does not fit, or the `IntegrityError` rolls back. -/
def insertRow (sha256 : String → String) (s : SharedStore) (scope : Scope) (cid : String) (args : PutArgs) :
    ScopeAnswer × SharedStore :=
  if args.Fits then
    match s.store.checkpoints.insert (putRow sha256 scope cid args) with
    | none => (.integrityError, s)
    | some t => (.stored cid, s.setCheckpoints t)
  else (.overflowError, s)

def serve (sha256 : String → String) (s : SharedStore) (scope : Scope) : ScopeOp → ScopeAnswer × SharedStore
  | .choose call checkpointId => (.done, s.setChosen scope call (some (chosenId s.store.checkpoints scope checkpointId)))
  | .insert call args => match s.chosen scope call with
    | none => (.done, s)
    | some cid => (s.setChosen scope call none).insertRow sha256 scope cid args
  | .get cid => (.row (getTuple s.store.checkpoints scope cid), s)
  | .list limit offset =>
    if 2 ^ 63 ≤ limit ∨ 2 ^ 63 ≤ offset then (.overflowError, s)
    else (.rows (Storage.list s.store.checkpoints scope limit offset), s)
  | .read cid now =>
    let out := getVerifiedTuple sha256 s.store scope cid now
    (.served out.1, { s with store := out.2 })
  | .scan clock => match quarantineCorrupt sha256 s.store scope clock with
    | (none, st) => (.operationalError, { s with store := st })
    | (some ids, st) => (.quarantined ids, { s with store := st })
  | .prune policy => match policy.prune s.store.checkpoints scope with
    | none => (.overflowError, s)
    | some (n, t) => (.deleted n, s.setCheckpoints t)
  | .corrupt cid stateJson stateSha256 =>
    (.done, s.setCheckpoints (s.store.checkpoints.rewrite (scope, cid) stateJson stateSha256))

end SharedStore

def scopeService (sha256 : String → String) : Service SharedStore (Scope × ScopeOp) ScopeAnswer :=
  ⟨fun s a => s.serve sha256 a.1 a.2⟩

/-- **What is a scope's own**: its rows, its copies in the quarantine table and the ids its puts have chosen. -/
structure ScopeView where
  rows : List Row
  quarantine : String → Option Quarantined
  chosen : ℕ → Option String

def viewOf (scope : Scope) (s : SharedStore) : ScopeView where
  rows := s.store.checkpoints.inScope scope
  quarantine cid := s.store.quarantine.get? (scope, cid)
  chosen := s.chosen scope

/-! ## The operations on a view -/

theorem getTuple_eq (t : Table) (scope : Scope) (cid : String) :
    getTuple t scope cid = (t.inScope scope).find? (fun r => r.checkpointId = cid) := by
  rw [getTuple, Table.inScope, List.find?_filter]
  congr 1
  funext r
  simp [Row.key, Prod.ext_iff]

theorem inScope_delete (t : Table) (p : Row → Bool) (scope : Scope) :
    (t.delete p).inScope scope = (t.inScope scope).filter (fun r => !p r) := by
  simp only [Table.inScope, Table.delete, List.filter_filter, Bool.and_comm]

theorem inScope_rewrite (t : Table) (key : Scope × String) (stateJson stateSha256 : String) (scope : Scope) :
    (t.rewrite key stateJson stateSha256).inScope scope =
      (t.inScope scope).map (fun r => if r.key = key then { r with stateJson, stateSha256 } else r) := by
  rw [Table.inScope, Table.inScope, Table.rewrite, List.filter_map]
  congr 1
  refine List.filter_congr (fun r _ => ?_)
  rw [Function.comp]
  split <;> rfl

/-- An id is free or taken within its scope. -/
theorem key_mem_keys_iff (t : Table) (scope : Scope) (cid : String) :
    (scope, cid) ∈ t.rows.map Row.key ↔ cid ∈ (t.inScope scope).map Row.checkpointId := by
  rw [List.mem_map, List.mem_map]
  constructor
  · rintro ⟨r, hr, hkey⟩
    obtain ⟨hs, hc⟩ := Prod.mk.inj hkey
    exact ⟨r, Table.mem_inScope.2 ⟨hr, hs⟩, hc⟩
  · rintro ⟨r, hr, hc⟩
    obtain ⟨hr, hs⟩ := Table.mem_inScope.1 hr
    exact ⟨r, hr, by rw [Row.key, hs, hc]⟩

def ScopeView.moveAside (v : ScopeView) (scope : Scope) (r : Row) (now : ℤ) : ScopeView where
  rows := v.rows.filter (fun x => !decide (x.key = r.key))
  quarantine cid := if (scope, cid) = r.key then some ⟨r.stateJson, r.stateSha256, corruptionReason, now⟩
    else v.quarantine cid
  chosen := v.chosen

theorem viewOf_quarantineRow (scope : Scope) (s : SharedStore) (r : Row) (now : ℤ) :
    viewOf scope { s with store := quarantineRow s.store r now } = (viewOf scope s).moveAside scope r now := by
  unfold viewOf ScopeView.moveAside
  congr 1
  · exact inScope_delete _ _ _
  · funext cid
    exact get?_quarantineRow s.store r now (scope, cid)

theorem moveAside_of_ne {scope : Scope} (s : SharedStore) {r : Row} (h : r.scope ≠ scope) (now : ℤ) :
    (viewOf scope s).moveAside scope r now = viewOf scope s := by
  have hkey : ∀ cid : String, (scope, cid) ≠ r.key := fun cid he => h (Prod.mk.inj he).1.symm
  unfold viewOf ScopeView.moveAside
  congr 1
  · refine List.filter_eq_self.2 (fun x hx => ?_)
    rw [Bool.not_eq_true', decide_eq_false_iff_not]
    intro he
    have hscope : x.scope = scope := (Table.mem_inScope.1 hx).2
    exact hkey x.checkpointId (by rw [← he, Row.key, hscope])
  · funext cid
    exact if_neg (hkey cid)

theorem viewOf_quarantineEach {sha256 : String → String} {scope : Scope} : ∀ (rows : List Row) (clock : ℕ → ℤ)
    {s t : SharedStore}, viewOf scope s = viewOf scope t →
    viewOf scope { s with store := (quarantineEach sha256 rows clock s.store).2 } =
      viewOf scope { t with store := (quarantineEach sha256 rows clock t.store).2 }
  | [], _, _, _, h => h
  | r :: rows, clock, s, t, h => by
    rw [quarantineEach, quarantineEach]
    cases verifyRow sha256 r with
    | true => exact viewOf_quarantineEach rows clock h
    | false =>
      have hmoved : viewOf scope { s with store := quarantineRow s.store r (clock 0) } =
          viewOf scope { t with store := quarantineRow t.store r (clock 0) } := by
        rw [viewOf_quarantineRow, viewOf_quarantineRow, h]
      exact viewOf_quarantineEach rows (fun n => clock (n + 1)) hmoved

theorem viewOf_quarantineEach_of_ne {sha256 : String → String} {scope : Scope} : ∀ (rows : List Row) (clock : ℕ → ℤ)
    (s : SharedStore), (∀ r ∈ rows, r.scope ≠ scope) →
    viewOf scope { s with store := (quarantineEach sha256 rows clock s.store).2 } = viewOf scope s
  | [], _, _, _ => rfl
  | r :: rows, clock, s, h => by
    rw [List.forall_mem_cons] at h
    rw [quarantineEach]
    cases verifyRow sha256 r with
    | true => exact viewOf_quarantineEach_of_ne rows clock s h.2
    | false =>
      have hrest : viewOf scope { s with store := (quarantineEach sha256 rows (fun n => clock (n + 1))
          (quarantineRow s.store r (clock 0))).2 } = viewOf scope { s with store := quarantineRow s.store r (clock 0) } :=
        viewOf_quarantineEach_of_ne rows _ { s with store := quarantineRow s.store r (clock 0) } h.2
      exact hrest.trans ((viewOf_quarantineRow scope s r _).trans (moveAside_of_ne s h.1 _))

/-! ## The others' operations leave the view -/

section Frame

variable {sha256 : String → String} {scope other : Scope}

theorem viewOf_setChosen_of_ne (h : other ≠ scope) (s : SharedStore) (call : ℕ) (cid : Option String) :
    viewOf scope (s.setChosen other call cid) = viewOf scope s := by
  unfold viewOf SharedStore.setChosen
  dsimp only
  rw [Function.update_of_ne h.symm]

theorem viewOf_setCheckpoints {s : SharedStore} {t : Table} (h : t.inScope scope = s.store.checkpoints.inScope scope) :
    viewOf scope (s.setCheckpoints t) = viewOf scope s := by
  unfold viewOf SharedStore.setCheckpoints
  dsimp only
  rw [h]

theorem viewOf_insertRow_of_ne (h : other ≠ scope) (s : SharedStore) (cid : String) (args : PutArgs) :
    viewOf scope (s.insertRow sha256 other cid args).2 = viewOf scope s := by
  unfold SharedStore.insertRow
  by_cases hfits : args.Fits
  · rw [if_pos hfits]
    cases hi : s.store.checkpoints.insert (putRow sha256 other cid args) with
    | none => rfl
    | some t =>
      refine viewOf_setCheckpoints ?_
      rw [inScope_insert hi, if_neg (show (putRow sha256 other cid args).scope ≠ scope from h), List.append_nil]
  · rw [if_neg hfits]

theorem viewOf_read_of_ne (h : other ≠ scope) (s : SharedStore) (cid : String) (now : ℤ) :
    viewOf scope { s with store := (getVerifiedTuple sha256 s.store other cid now).2 } = viewOf scope s := by
  rcases snd_getVerifiedTuple sha256 s.store other cid now with ⟨c, ⟨-, hc, -⟩, hmoved⟩ | ⟨-, hsame⟩
  · rw [hmoved]
    refine (viewOf_quarantineRow scope s c now).trans (moveAside_of_ne s ?_ now)
    rw [(Prod.mk.inj hc.2).1]
    exact h
  · rw [hsame]

theorem viewOf_serve_of_ne (h : other ≠ scope) (s : SharedStore) (op : ScopeOp) :
    viewOf scope (s.serve sha256 other op).2 = viewOf scope s := by
  cases op with
  | choose call checkpointId => exact viewOf_setChosen_of_ne h s call _
  | insert call args =>
    unfold SharedStore.serve
    dsimp only
    cases s.chosen other call with
    | none => rfl
    | some cid => exact (viewOf_insertRow_of_ne h _ cid args).trans (viewOf_setChosen_of_ne h s call none)
  | get cid => rfl
  | list limit offset =>
    unfold SharedStore.serve
    dsimp only
    split <;> rfl
  | read cid now => exact viewOf_read_of_ne h s cid now
  | scan clock =>
    unfold SharedStore.serve
    dsimp only
    rw [quarantineCorrupt_of_readable (scopeReadable_text _ other)]
    refine viewOf_quarantineEach_of_ne _ clock s (fun r hr => ?_)
    rw [(Table.mem_inScope.1 (mem_newestFirst.1 hr)).2]
    exact h
  | prune policy =>
    unfold SharedStore.serve
    dsimp only
    cases hp : policy.prune s.store.checkpoints other with
    | none => rfl
    | some out => exact viewOf_setCheckpoints (inScope_prune_of_ne hp h.symm)
  | corrupt cid stateJson stateSha256 =>
    refine viewOf_setCheckpoints ?_
    rw [inScope_rewrite]
    refine (List.map_congr_left (fun r hr => if_neg ?_)).trans (List.map_id _)
    intro he
    rw [Row.key, (Table.mem_inScope.1 hr).2] at he
    exact h (Prod.mk.inj he).1.symm

end Frame

/-! ## A scope's own operations see its view only -/

section Alike

variable {sha256 : String → String} {scope : Scope} {s t : SharedStore}

theorem rows_eq (h : viewOf scope s = viewOf scope t) :
    s.store.checkpoints.inScope scope = t.store.checkpoints.inScope scope := congrArg ScopeView.rows h

/-- Two states that served an operation alike. -/
def AlikeAfter (scope : Scope) (x y : ScopeAnswer × SharedStore) : Prop :=
  x.1 = y.1 ∧ viewOf scope x.2 = viewOf scope y.2

theorem viewOf_setChosen (h : viewOf scope s = viewOf scope t) (call : ℕ) (cid : Option String) :
    viewOf scope (s.setChosen scope call cid) = viewOf scope (t.setChosen scope call cid) := by
  have hchosen : s.chosen scope = t.chosen scope := congrArg ScopeView.chosen h
  unfold SharedStore.setChosen
  unfold viewOf at h ⊢
  simp only [ScopeView.mk.injEq, Function.update_self] at h ⊢
  exact ⟨h.1, h.2.1, by rw [hchosen]⟩

theorem viewOf_setCheckpoints_congr (h : viewOf scope s = viewOf scope t) {a b : Table}
    (hrows : a.inScope scope = b.inScope scope) :
    viewOf scope (s.setCheckpoints a) = viewOf scope (t.setCheckpoints b) := by
  unfold SharedStore.setCheckpoints
  unfold viewOf at h ⊢
  simp only [ScopeView.mk.injEq] at h ⊢
  exact ⟨hrows, h.2⟩

theorem chosenId_congr (h : viewOf scope s = viewOf scope t) (checkpointId : Option String) :
    chosenId s.store.checkpoints scope checkpointId = chosenId t.store.checkpoints scope checkpointId := by
  unfold chosenId defaultId Storage.list
  rw [rows_eq h]

theorem insertRow_alike (h : viewOf scope s = viewOf scope t) (cid : String) (args : PutArgs) :
    AlikeAfter scope (s.insertRow sha256 scope cid args) (t.insertRow sha256 scope cid args) := by
  have hkey : (putRow sha256 scope cid args : Row).key = (scope, cid) := rfl
  have hfree : (scope, cid) ∈ s.store.checkpoints.rows.map Row.key ↔ (scope, cid) ∈ t.store.checkpoints.rows.map Row.key := by
    rw [key_mem_keys_iff, key_mem_keys_iff, rows_eq h]
  unfold SharedStore.insertRow
  by_cases hfits : args.Fits
  swap
  · rw [if_neg hfits, if_neg hfits]
    exact ⟨rfl, h⟩
  rw [if_pos hfits, if_pos hfits]
  cases hs : s.store.checkpoints.insert (putRow sha256 scope cid args) with
  | none =>
    have ht : t.store.checkpoints.insert (putRow sha256 scope cid args) = none := by
      rw [Table.insert_eq_none_iff, hkey] at hs ⊢
      exact hfree.1 hs
    rw [ht]
    exact ⟨rfl, h⟩
  | some a =>
    cases ht : t.store.checkpoints.insert (putRow sha256 scope cid args) with
    | none =>
      rw [Table.insert_eq_none_iff, hkey] at ht
      rw [Table.insert_eq_some_iff, hkey] at hs
      exact absurd (hfree.2 ht) hs.1
    | some b =>
      refine ⟨rfl, viewOf_setCheckpoints_congr h ?_⟩
      rw [inScope_insert hs, inScope_insert ht, rows_eq h]

theorem requested_congr (h : viewOf scope s = viewOf scope t) {cid : String} {r : Row}
    (hr : Requested s.store scope cid r) : Requested t.store scope cid r := by
  have hmem : r ∈ s.store.checkpoints.inScope scope := Table.mem_inScope.2 ⟨hr.1, (Prod.mk.inj hr.2).1⟩
  rw [rows_eq h] at hmem
  exact ⟨(Table.mem_inScope.1 hmem).1, hr.2⟩

theorem read_alike (h : viewOf scope s = viewOf scope t) (cid : String) (now : ℤ) :
    AlikeAfter scope (s.serve sha256 scope (.read cid now)) (t.serve sha256 scope (.read cid now)) := by
  unfold SharedStore.serve
  dsimp only
  have hread := scopeReadable_text s.store.checkpoints scope
  have hread' := scopeReadable_text t.store.checkpoints scope
  by_cases hreq : ∃ r, Requested s.store scope cid r
  · obtain ⟨r, hr⟩ := hreq
    have hr' := requested_congr h hr
    cases hv : verifyRow sha256 r with
    | true =>
      rw [getVerifiedTuple_of_requested hread hr hv, getVerifiedTuple_of_requested hread' hr' hv]
      exact ⟨rfl, h⟩
    | false =>
      have hfind : findRemaining sha256 s.store scope cid = findRemaining sha256 t.store scope cid := by
        rw [findRemaining, findRemaining, rows_eq h]
      rw [getVerifiedTuple_of_corrupt hread hr hv, getVerifiedTuple_of_corrupt hread' hr' hv, hfind]
      refine ⟨rfl, ?_⟩
      exact (viewOf_quarantineRow scope s r now).trans (h ▸ (viewOf_quarantineRow scope t r now).symm)
  · have hno : ∀ r, ¬ Requested s.store scope cid r := fun r hr => hreq ⟨r, hr⟩
    have hno' : ∀ r, ¬ Requested t.store scope cid r := fun r hr => hno r (requested_congr h.symm hr)
    rw [getVerifiedTuple_of_missing hread hno, getVerifiedTuple_of_missing hread' hno']
    exact ⟨rfl, h⟩

theorem beyond_congr (h : viewOf scope s = viewOf scope t) (keep : ℕ) :
    beyond s.store.checkpoints scope keep = beyond t.store.checkpoints scope keep := by
  funext r
  rw [beyond, beyond, prunable_eq, prunable_eq, rows_eq h]

/-- The rows a prune counts are the scope's. -/
theorem countP_beyond (a : Table) (keep : ℕ) :
    a.rows.countP (beyond a scope keep) = (a.inScope scope).countP (beyond a scope keep) := by
  rw [Table.inScope, List.countP_filter]
  refine List.countP_congr (fun r _ => ?_)
  rw [Bool.and_eq_true, decide_eq_true_eq]
  refine ⟨fun hb => ⟨hb, ?_⟩, And.left⟩
  rw [beyond, Bool.and_eq_true, Bool.and_eq_true, decide_eq_true_eq] at hb
  exact hb.1.1

theorem prune_alike (h : viewOf scope s = viewOf scope t) (policy : RetentionPolicy) :
    AlikeAfter scope (s.serve sha256 scope (.prune policy)) (t.serve sha256 scope (.prune policy)) := by
  unfold SharedStore.serve
  dsimp only
  by_cases hfits : policy.keep < 2 ^ 63
  · rw [RetentionPolicy.prune_of_probe hfits (probeReadable_text _ _ _),
      RetentionPolicy.prune_of_probe hfits (probeReadable_text _ _ _)]
    refine ⟨?_, viewOf_setCheckpoints_congr h ?_⟩
    · dsimp only
      rw [countP_beyond, countP_beyond, beyond_congr h, rows_eq h]
    · rw [inScope_delete, inScope_delete, beyond_congr h, rows_eq h]
  · rw [RetentionPolicy.prune_of_overflow hfits, RetentionPolicy.prune_of_overflow hfits]
    exact ⟨rfl, h⟩

theorem serve_alike (h : viewOf scope s = viewOf scope t) (op : ScopeOp) :
    AlikeAfter scope (s.serve sha256 scope op) (t.serve sha256 scope op) := by
  cases op with
  | choose call checkpointId =>
    refine ⟨rfl, ?_⟩
    unfold SharedStore.serve
    dsimp only
    rw [chosenId_congr h]
    exact viewOf_setChosen h call _
  | insert call args =>
    have hchosen : s.chosen scope call = t.chosen scope call := congrFun (congrArg ScopeView.chosen h) call
    unfold SharedStore.serve
    dsimp only
    rw [hchosen]
    cases t.chosen scope call with
    | none => exact ⟨rfl, h⟩
    | some cid => exact insertRow_alike (viewOf_setChosen h call none) cid args
  | get cid =>
    unfold SharedStore.serve
    dsimp only
    rw [getTuple_eq, getTuple_eq, rows_eq h]
    exact ⟨rfl, h⟩
  | list limit offset =>
    unfold SharedStore.serve Storage.list
    dsimp only
    rw [rows_eq h]
    split
    · exact ⟨rfl, h⟩
    · exact ⟨rfl, h⟩
  | read cid now => exact read_alike h cid now
  | scan clock =>
    unfold SharedStore.serve
    dsimp only
    rw [quarantineCorrupt_of_readable (scopeReadable_text _ scope), quarantineCorrupt_of_readable (scopeReadable_text _ scope),
      rows_eq h]
    refine ⟨?_, viewOf_quarantineEach _ clock h⟩
    dsimp only
    rw [quarantineEach_fst, quarantineEach_fst]
  | prune policy => exact prune_alike h policy
  | corrupt cid stateJson stateSha256 =>
    refine ⟨rfl, viewOf_setCheckpoints_congr h ?_⟩
    rw [inScope_rewrite, inScope_rewrite, rows_eq h]

end Alike

/-! ## The scopes of a database -/

theorem scope_separates (sha256 : String → String) (scope : Scope) :
    (scopeService sha256).Separates (fun a => decide (a.1 = scope)) (fun _ _ => True) (fun _ _ => True)
      (fun s t => viewOf scope s = viewOf scope t) where
  frame s t a h _ hmine := (viewOf_serve_of_ne (of_decide_eq_false hmine) s a.2).trans h
  alike s t a h _ _ hmine := by
    obtain ⟨other, op⟩ := a
    obtain rfl : other = scope := of_decide_eq_true hmine
    exact serve_alike h op

/-- **A scope in a shared database is served as if it had the database for itself**: in any history of operations of any
scopes, whatever of their rows is written over, its operations are answered as they are without the others', and its
rows, copies and pending puts are in the end those they are without them. -/
theorem scope_isolated (sha256 : String → String) (scope : Scope) (ops : List (Scope × ScopeOp)) :
    ((scopeService sha256).answers SharedStore.empty ops).filter (fun q => decide (q.1.1 = scope)) =
        (scopeService sha256).answers SharedStore.empty (ops.filter (fun a => decide (a.1 = scope))) ∧
      viewOf scope ((scopeService sha256).after SharedStore.empty ops) =
        viewOf scope ((scopeService sha256).after SharedStore.empty (ops.filter (fun a => decide (a.1 = scope)))) :=
  (scope_separates sha256 scope).answers_filter rfl (Service.throughout_of_forall (fun _ _ => trivial) _ _)
    (Service.throughout_of_forall (fun _ _ => trivial) _ _)

end Storage
end DevHarness
