import DevHarness.Storage.Integrity
import DevHarness.Lib.Machine
/-!
# Quarantine — what the side table keeps of the rows moved aside (`storage/integrity.py`)

The side table has the key and two columns of a checkpoint, and its insert replaces.  Ids are generated again once a row
has left, so two rows can be moved aside under one key.  `Vault` is the store with the rows moved so far.
-/
namespace DevHarness
namespace Storage

open Lib

inductive Column where
  | projectId
  | threadId
  | checkpointId
  | stateJson
  | stateSha256
  | gitCommitHash
  | isPaused
  | createdAt
  | worktreeHead
  | worktreeDiff
  deriving DecidableEq

inductive Cell where
  | text (s : Option StoredText)
  | integer (z : ℤ)
  deriving DecidableEq

def Row.column (r : Row StoredText) : Column → Cell
  | .projectId => .text (some (.utf8 r.scope.projectId))
  | .threadId => .text (some (.utf8 r.scope.threadId))
  | .checkpointId => .text r.checkpointId
  | .stateJson => .text r.stateJson
  | .stateSha256 => .text r.stateSha256
  | .gitCommitHash => .text r.gitCommitHash
  | .isPaused => .integer (if r.isPaused then 1 else 0)
  | .createdAt => .integer r.createdAt
  | .worktreeHead => .text r.worktreeHead
  | .worktreeDiff => .text r.worktreeDiff

/-- `_QUARANTINE_DDL`: the columns of a checkpoint that a row of the side table has. -/
def Quarantined.column (k : Scope × StoredText) (q : Quarantined StoredText) : Column → Option Cell
  | .projectId => some (.text (some (.utf8 k.1.projectId)))
  | .threadId => some (.text (some (.utf8 k.1.threadId)))
  | .checkpointId => some (.text k.2)
  | .stateJson => some (.text q.stateJson)
  | .stateSha256 => some (.text q.stateSha256)
  | _ => none

inductive VaultAction where
  | put (scope : Scope) (args : PutArgs) (checkpointId : Option String)
  -- The row under the key, written over from outside.
  | corrupt (key : Scope × StoredText) (row : Row StoredText)
  | read (scope : Scope) (checkpointId : String) (now : ℤ)
  | scan (scope : Scope) (clock : ℕ → ℤ)

structure Vault where
  store : Store StoredText
  moved : List (Row StoredText)
  deriving DecidableEq

namespace Vault

def empty : Vault := ⟨Store.empty, []⟩

/-- The rows that left the table. -/
def taken (s st : Store StoredText) : List (Row StoredText) :=
  s.checkpoints.rows.filter (fun r => decide (r ∉ st.checkpoints.rows))

def movedTo (v : Vault) (st : Store StoredText) : Vault := ⟨st, v.moved ++ taken v.store st⟩

def step (sha256 : String → String) (v : Vault) : VaultAction → Option Vault
  | .put scope args cid => match put sha256 v.store.checkpoints scope args cid with
    | none => some v
    | some t => some { v with store := { v.store with checkpoints := t } }
  | .corrupt key row =>
    if ∃ r ∈ v.store.checkpoints.rows, r.key = key then
      match (v.store.checkpoints.delete (fun r => decide (r.key = key))).insert row with
      | none => none
      | some t => some { v with store := { v.store with checkpoints := t } }
    else none
  | .read scope cid now => some (v.movedTo (getVerifiedTuple sha256 v.store scope cid now).2)
  | .scan scope clock => some (v.movedTo (quarantineCorrupt sha256 v.store scope clock).2)

end Vault

def vaultMachine (sha256 : String → String) : Machine Vault VaultAction := ⟨Vault.step sha256⟩

/-- The row is in the side table with all of its columns. -/
def Kept (q : Dict (Scope × StoredText) (Quarantined StoredText)) (r : Row StoredText) : Prop :=
  ∃ e, q.get? r.key = some e ∧ ∀ c, e.column r.key c = some (r.column c)

/-- The row is in the side table, and the columns it has there are its own. -/
def CopyKept (q : Dict (Scope × StoredText) (Quarantined StoredText)) (r : Row StoredText) : Prop :=
  ∃ e, q.get? r.key = some e ∧ ∀ c v, e.column r.key c = some v → v = r.column c

/-- The rows moved since are moved under keys the side table did not have. -/
def NoOverwrite (v v' : Vault) : Prop := ∀ r ∈ v'.moved.drop v.moved.length, v.store.quarantine.get? r.key = none

/-- **Nothing is lost**: the rows moved so far are kept whole, and this step writes over none of them. -/
def NothingLost (v v' : Vault) : Prop := (∀ r ∈ v'.moved, Kept v'.store.quarantine r) ∧ NoOverwrite v v'

/-- The step meets no corrupt row in a scope it can read. -/
def MeetsNoCorruptRow (sha256 : String → String) (v : Vault) : VaultAction → Prop
  | .read scope cid _ => ScopeReadable v.store.checkpoints scope →
    ∀ r, Requested v.store scope cid r → verifyRow sha256 r = true
  | .scan scope _ => ScopeReadable v.store.checkpoints scope →
    ∀ r ∈ v.store.checkpoints.inScope scope, verifyRow sha256 r = true
  | _ => True

/-! ## One step -/

/-- **What a step moves**: the rows, under distinct keys, which the side table then has with two of their columns; under
the other keys it has what it had. -/
structure StepMoves (sha256 : String → String) (v : Vault) (l : VaultAction) (v' : Vault)
    (rows : List (Row StoredText)) : Prop where
  moved : v'.moved = v.moved ++ rows
  nodup : (rows.map Row.key).Nodup
  aside : ∀ r ∈ rows, ∃ e, v'.store.quarantine.get? r.key = some e ∧ e.stateJson = r.stateJson ∧
    e.stateSha256 = r.stateSha256
  others : ∀ k, (∀ r ∈ rows, r.key ≠ k) → v'.store.quarantine.get? k = v.store.quarantine.get? k
  clean : rows = [] ↔ MeetsNoCorruptRow sha256 v l

theorem nodup_taken (s st : Store StoredText) : ((Vault.taken s st).map Row.key).Nodup :=
  s.checkpoints.primaryKey.sublist (List.filter_sublist.map Row.key)

theorem stepMoves_still {sha256 : String → String} {v v' : Vault} {l : VaultAction} (hm : v'.moved = v.moved)
    (hq : v'.store.quarantine = v.store.quarantine) (hl : MeetsNoCorruptRow sha256 v l) :
    StepMoves sha256 v l v' [] where
  moved := by rw [hm, List.append_nil]
  nodup := List.nodup_nil
  aside _ hr := by cases hr
  others k _ := by rw [hq]
  clean := iff_of_true rfl hl

theorem mem_taken_read {sha256 : String → String} {s : Store StoredText} {scope : Scope} {cid : String} {now : ℤ}
    {r : Row StoredText} :
    r ∈ Vault.taken s (getVerifiedTuple sha256 s scope cid now).2 ↔
      ScopeReadable s.checkpoints scope ∧ Requested s scope cid r ∧ verifyRow sha256 r = false := by
  rw [Vault.taken, List.mem_filter, decide_eq_true_eq]
  rcases snd_getVerifiedTuple sha256 s scope cid now with ⟨c, ⟨hread, hc, hv⟩, hmoved⟩ | ⟨hall, hsame⟩
  · rw [hmoved, quarantineRow, Table.mem_delete, decide_eq_false_iff_not]
    constructor
    · rintro ⟨hr, hout⟩
      have hkey : r.key = c.key := by
        by_contra hne
        exact hout ⟨hr, hne⟩
      rw [Table.eq_of_key hr hc.1 hkey]
      exact ⟨hread, hc, hv⟩
    · rintro ⟨-, hr, -⟩
      exact ⟨hr.1, fun h => h.2 (by rw [hr.unique hc])⟩
  · rw [hsame]
    refine iff_of_false (fun h => h.2 h.1) ?_
    rintro ⟨hread, hr, hv⟩
    rw [hall hread r hr] at hv
    cases hv

theorem mem_taken_scan {sha256 : String → String} {s : Store StoredText} {scope : Scope} {clock : ℕ → ℤ} {r : Row StoredText} :
    r ∈ Vault.taken s (quarantineCorrupt sha256 s scope clock).2 ↔
      ScopeReadable s.checkpoints scope ∧ r ∈ s.checkpoints.inScope scope ∧ verifyRow sha256 r = false := by
  rw [Vault.taken, List.mem_filter, decide_eq_true_eq]
  by_cases hread : ScopeReadable s.checkpoints scope
  · rw [rows_quarantineCorrupt hread, List.mem_filter, Table.mem_inScope]
    by_cases hs : r.scope = scope <;> cases verifyRow sha256 r <;> simp [hs, hread]
  · rw [quarantineCorrupt_of_unreadable hread]
    exact iff_of_false (fun h => h.2 h.1) (fun h => hread h.1)

theorem stepMoves_read (sha256 : String → String) (v : Vault) (scope : Scope) (cid : String) (now : ℤ) :
    StepMoves sha256 v (.read scope cid now) (v.movedTo (getVerifiedTuple sha256 v.store scope cid now).2)
      (Vault.taken v.store (getVerifiedTuple sha256 v.store scope cid now).2) where
  moved := rfl
  nodup := nodup_taken _ _
  aside r hr := by
    obtain ⟨hread, hr, hrv⟩ := mem_taken_read.1 hr
    rcases snd_getVerifiedTuple sha256 v.store scope cid now with ⟨c, ⟨-, hc, -⟩, hmoved⟩ | ⟨hall, -⟩
    · refine ⟨⟨r.stateJson, r.stateSha256, corruptionReason, now⟩, ?_, rfl, rfl⟩
      rw [Vault.movedTo, hmoved, hr.unique hc, get?_quarantineRow, if_pos rfl]
    · rw [hall hread r hr] at hrv
      cases hrv
  others k hk := by
    rcases snd_getVerifiedTuple sha256 v.store scope cid now with ⟨c, hc, hmoved⟩ | ⟨-, hsame⟩
    · have hne : k ≠ c.key := fun he => hk c (mem_taken_read.2 hc) he.symm
      rw [Vault.movedTo, hmoved, get?_quarantineRow, if_neg hne]
    · rw [Vault.movedTo, hsame]
  clean := by
    rw [List.eq_nil_iff_forall_not_mem]
    constructor
    · intro h hread c hc
      by_contra hv
      exact h c (mem_taken_read.2 ⟨hread, hc, Bool.not_eq_true _ ▸ hv⟩)
    · intro h c hc
      obtain ⟨hread, hreq, hv⟩ := mem_taken_read.1 hc
      rw [h hread c hreq] at hv
      cases hv

theorem stepMoves_scan (sha256 : String → String) (v : Vault) (scope : Scope) (clock : ℕ → ℤ) :
    StepMoves sha256 v (.scan scope clock) (v.movedTo (quarantineCorrupt sha256 v.store scope clock).2)
      (Vault.taken v.store (quarantineCorrupt sha256 v.store scope clock).2) where
  moved := rfl
  nodup := nodup_taken _ _
  aside r hr := by
    obtain ⟨hread, hr, hv⟩ := mem_taken_scan.1 hr
    obtain ⟨n, hn⟩ := (scansScope_of_readable hread clock).2.2.1 r hr hv
    exact ⟨_, hn, rfl, rfl⟩
  others k hk := by
    by_cases hread : ScopeReadable v.store.checkpoints scope
    · exact (scansScope_of_readable hread clock).2.2.2 k (fun r hr hv => hk r (mem_taken_scan.2 ⟨hread, hr, hv⟩))
    · rw [Vault.movedTo, quarantineCorrupt_of_unreadable hread]
  clean := by
    rw [List.eq_nil_iff_forall_not_mem]
    constructor
    · intro h hread r hr
      by_contra hv
      exact h r (mem_taken_scan.2 ⟨hread, hr, Bool.not_eq_true _ ▸ hv⟩)
    · intro h r hr
      obtain ⟨hread, hs, hv⟩ := mem_taken_scan.1 hr
      rw [h hread r hs] at hv
      cases hv

theorem stepMoves_of_step {sha256 : String → String} {v v' : Vault} {l : VaultAction}
    (h : (vaultMachine sha256).step v l = some v') : ∃ rows, StepMoves sha256 v l v' rows := by
  cases l with
  | put scope args cid =>
    simp only [vaultMachine, Vault.step] at h
    cases hp : put sha256 v.store.checkpoints scope args cid with
    | none =>
      rw [hp] at h
      cases h
      exact ⟨[], stepMoves_still rfl rfl trivial⟩
    | some t =>
      rw [hp] at h
      cases h
      exact ⟨[], stepMoves_still rfl rfl trivial⟩
  | corrupt key row =>
    simp only [vaultMachine, Vault.step] at h
    split at h
    · cases hi : (v.store.checkpoints.delete (fun r => decide (r.key = key))).insert row with
      | none => rw [hi] at h; cases h
      | some t =>
        rw [hi] at h
        cases h
        exact ⟨[], stepMoves_still rfl rfl trivial⟩
    · cases h
  | read scope cid now =>
    cases h
    exact ⟨_, stepMoves_read sha256 v scope cid now⟩
  | scan scope clock =>
    cases h
    exact ⟨_, stepMoves_scan sha256 v scope clock⟩

/-! ## A run -/

/-- The last row moved aside under a key. -/
def lastMoved (k : Scope × StoredText) (moved : List (Row StoredText)) : Option (Row StoredText) :=
  moved.reverse.find? (fun r => r.key = k)

theorem lastMoved_append (k : Scope × StoredText) (moved rows : List (Row StoredText)) :
    lastMoved k (moved ++ rows) = (lastMoved k rows).or (lastMoved k moved) := by
  rw [lastMoved, List.reverse_append, List.find?_append]
  rfl

theorem lastMoved_eq_some {k : Scope × StoredText} {moved : List (Row StoredText)} {r : Row StoredText}
    (h : lastMoved k moved = some r) : r ∈ moved ∧ r.key = k := by
  unfold lastMoved at h
  exact ⟨List.mem_reverse.1 (List.mem_of_find?_eq_some h), by simpa using List.find?_some h⟩

theorem lastMoved_eq_none_iff {k : Scope × StoredText} {moved : List (Row StoredText)} :
    lastMoved k moved = none ↔ ∀ r ∈ moved, r.key ≠ k := by
  rw [lastMoved, List.find?_eq_none]
  simp

/-- **The side table holds, under each key, the two columns of the last row moved under it.** -/
def HoldsLast (v : Vault) : Prop :=
  ∀ k, (v.store.quarantine.get? k).map (fun e => (e.stateJson, e.stateSha256)) =
    (lastMoved k v.moved).map (fun r => (r.stateJson, r.stateSha256))

theorem holdsLast_empty : HoldsLast Vault.empty := fun _ => rfl

theorem StepMoves.holdsLast {sha256 : String → String} {v v' : Vault} {l : VaultAction} {rows : List (Row StoredText)}
    (h : StepMoves sha256 v l v' rows) (hv : HoldsLast v) : HoldsLast v' := by
  intro k
  rw [h.moved, lastMoved_append]
  cases hl : lastMoved k rows with
  | none => rw [h.others k (lastMoved_eq_none_iff.1 hl), hv k, Option.none_or]
  | some r =>
    obtain ⟨hr, rfl⟩ := lastMoved_eq_some hl
    obtain ⟨e, he, hjson, hsha⟩ := h.aside r hr
    rw [he, Option.some_or, Option.map_some, Option.map_some, hjson, hsha]

theorem get?_eq_none_iff {v : Vault} (hv : HoldsLast v) (k : Scope × StoredText) :
    v.store.quarantine.get? k = none ↔ k ∉ v.moved.map Row.key := by
  rw [← Option.map_eq_none_iff, hv k, Option.map_eq_none_iff, lastMoved_eq_none_iff]
  simp

theorem not_kept (q : Dict (Scope × StoredText) (Quarantined StoredText)) (r : Row StoredText) : ¬ Kept q r := by
  rintro ⟨e, -, hall⟩
  have h := hall .createdAt
  cases h

theorem copyKept_iff {q : Dict (Scope × StoredText) (Quarantined StoredText)} {r : Row StoredText} :
    CopyKept q r ↔ (q.get? r.key).map (fun e => (e.stateJson, e.stateSha256)) = some (r.stateJson, r.stateSha256) := by
  rw [Option.map_eq_some_iff]
  constructor
  · rintro ⟨e, he, hcols⟩
    have hjson := hcols .stateJson _ rfl
    have hsha := hcols .stateSha256 _ rfl
    simp only [Row.column, Cell.text.injEq, Option.some.injEq] at hjson hsha
    exact ⟨e, he, by rw [hjson, hsha]⟩
  · rintro ⟨e, he, hcopy⟩
    obtain ⟨hjson, hsha⟩ := Prod.mk.inj hcopy
    refine ⟨e, he, fun c v hc => ?_⟩
    cases c with
    | projectId => cases hc; rfl
    | threadId => cases hc; rfl
    | checkpointId => cases hc; rfl
    | stateJson => cases hc; rw [Row.column, hjson]
    | stateSha256 => cases hc; rw [Row.column, hsha]
    | gitCommitHash => cases hc
    | isPaused => cases hc
    | createdAt => cases hc
    | worktreeHead => cases hc
    | worktreeDiff => cases hc

/-- **The copied columns are kept exactly of rows moved with the same contents as every other under their key.** -/
theorem copiesKept_iff {v : Vault} (hv : HoldsLast v) :
    (∀ r ∈ v.moved, CopyKept v.store.quarantine r) ↔
      ∀ a ∈ v.moved, ∀ b ∈ v.moved, a.key = b.key → a.stateJson = b.stateJson ∧ a.stateSha256 = b.stateSha256 := by
  constructor
  · intro h a ha b hb hkey
    have hab := (copyKept_iff.1 (h a ha)).symm.trans (hkey ▸ copyKept_iff.1 (h b hb))
    exact Prod.mk.inj (Option.some.inj hab)
  · intro h r hr
    rw [copyKept_iff, hv]
    cases hl : lastMoved r.key v.moved with
    | none => exact absurd rfl (lastMoved_eq_none_iff.1 hl r hr)
    | some b =>
      obtain ⟨hb, hkey⟩ := lastMoved_eq_some hl
      obtain ⟨hjson, hsha⟩ := h b hb r hr hkey
      rw [Option.map_some, hjson, hsha]

theorem StepMoves.noOverwrite_iff {sha256 : String → String} {v v' : Vault} {l : VaultAction} {rows : List (Row StoredText)}
    (h : StepMoves sha256 v l v' rows) (hv : HoldsLast v) (hnodup : (v.moved.map Row.key).Nodup) :
    NoOverwrite v v' ↔ (v'.moved.map Row.key).Nodup := by
  rw [NoOverwrite, h.moved, List.drop_left, List.map_append, List.nodup_append, and_iff_right hnodup,
    and_iff_right h.nodup]
  constructor
  · intro hno a ha b hb he
    obtain ⟨r, hr, rfl⟩ := List.mem_map.1 hb
    exact (get?_eq_none_iff hv r.key).1 (hno r hr) (he ▸ ha)
  · intro hdisj r hr
    rw [get?_eq_none_iff hv]
    exact fun hm => hdisj _ hm _ (List.mem_map_of_mem hr) rfl

theorem prefix_moved_of_run (sha256 : String → String) (ls : List VaultAction) (v t : Vault)
    (h : (vaultMachine sha256).run v ls = some t) : v.moved <+: t.moved := by
  refine (vaultMachine sha256).inv_of_run (fun u => v.moved <+: u.moved) ?_ ls v t (List.prefix_refl _) h
  intro s l s' hs hstep
  obtain ⟨rows, hrows⟩ := stepMoves_of_step hstep
  rw [hrows.moved]
  exact hs.trans (List.prefix_append _ _)

theorem along_noOverwrite_iff (sha256 : String → String) : ∀ (ls : List VaultAction) (v t : Vault), HoldsLast v →
    (v.moved.map Row.key).Nodup → (vaultMachine sha256).run v ls = some t →
    ((vaultMachine sha256).Along (fun v _ v' => NoOverwrite v v') v ls ↔ (t.moved.map Row.key).Nodup)
  | [], v, t, _, hnodup, hrun => by
    cases hrun
    exact iff_of_true trivial hnodup
  | l :: ls, v, t, hv, hnodup, hrun => by
    obtain ⟨v', hstep, hrun'⟩ := (vaultMachine sha256).run_cons_eq_some.1 hrun
    obtain ⟨rows, hrows⟩ := stepMoves_of_step hstep
    rw [(vaultMachine sha256).along_cons_of_step hstep, hrows.noOverwrite_iff hv hnodup]
    by_cases hnodup' : (v'.moved.map Row.key).Nodup
    · rw [and_iff_right hnodup']
      exact along_noOverwrite_iff sha256 ls v' t (hrows.holdsLast hv) hnodup' hrun'
    · refine iff_of_false (fun h => hnodup' h.1) (fun h => hnodup' ?_)
      exact h.sublist ((prefix_moved_of_run sha256 ls v' t hrun').sublist.map Row.key)

/-- **A step loses nothing exactly when it meets no corrupt row**: the side table has no column for the time. -/
theorem along_nothingLost_iff (sha256 : String → String) (ls : List VaultAction) :
    (vaultMachine sha256).Along (fun v _ v' => NothingLost v v') Vault.empty ls ↔
      (vaultMachine sha256).Along (fun v l _ => MeetsNoCorruptRow sha256 v l) Vault.empty ls := by
  refine (vaultMachine sha256).along_iff_along (fun v => v.moved = []) ?_ ?_ ls Vault.empty rfl
  · intro v l v' hv hstep
    obtain ⟨rows, hrows⟩ := stepMoves_of_step hstep
    rw [← hrows.clean, NothingLost, NoOverwrite, hrows.moved, hv, List.nil_append]
    constructor
    · rintro ⟨hkept, -⟩
      rw [List.eq_nil_iff_forall_not_mem]
      exact fun r hr => not_kept _ r (hkept r hr)
    · rintro rfl
      exact ⟨fun r hr => (List.not_mem_nil hr).elim, fun r hr => (List.not_mem_nil hr).elim⟩
  · rintro v l v' hv ⟨hkept, -⟩ hstep
    rw [List.eq_nil_iff_forall_not_mem]
    exact fun r hr => not_kept _ r (hkept r hr)

/-- A row whose state was written over after its put; the digest is that of the state put. -/
def writtenOver (rawInput found : String) : Row StoredText :=
  ⟨⟨"p", "t"⟩, .utf8 "cp_0", .utf8 found, .utf8 (dumpedState rawInput), some (.utf8 "c0ffee"), false, 5,
    some (.utf8 "\x7b\x7d"), some (.utf8 "\x7b\x7d")⟩

/-- A put, its row written over, and a read that moves it aside. -/
def movedOnce (rawInput found : String) : List VaultAction :=
  [.put ⟨"p", "t"⟩ ⟨dumpedState rawInput, some "c0ffee", false, some 5, some "\x7b\x7d", some "\x7b\x7d"⟩ none,
    .corrupt (⟨"p", "t"⟩, .utf8 "cp_0") (writtenOver rawInput found), .read ⟨"p", "t"⟩ "cp_0" 10]

end Storage
end DevHarness
