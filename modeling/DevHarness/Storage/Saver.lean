import DevHarness.Lib.Dict
import Mathlib.Data.String.Basic
import Mathlib.Data.List.Sort
import Mathlib.Data.Prod.Lex
import Mathlib.Algebra.Group.Int.Defs
/-!
# Saver — the checkpoint store (`storage/sqlite_saver.py`, `retention.py`, `integrity.py`, `migrations/0001_init.sql`)

The `checkpoints` table carries its primary key as a field, so an insertion under a live key has no result: that is the
`IntegrityError`.  A put reads the scope's listing for its default id before its write transaction begins, so the two
are separate here.  The digest is a parameter, and so is what a text cell can hold: text where only the program writes,
and bytes that may not decode (`StoredText`) where the file is written from outside.
-/
namespace DevHarness
namespace Storage

open Lib

structure Scope where
  projectId : String
  threadId : String
  deriving DecidableEq

/-- A cell of a text column, and what reading it gives: `none` is the `OperationalError` of bytes that are not UTF-8. -/
class TextCell (τ : Type) where
  text : String → τ
  decode : τ → Option String
  decode_text : ∀ s, decode (text s) = some s
  text_of_decode : ∀ c s, decode c = some s → text s = c

attribute [simp] TextCell.decode_text

instance : TextCell String := ⟨fun s => s, some, fun _ => rfl, fun _ _ h => (Option.some.inj h).symm⟩

@[simp] theorem TextCell.text_string (s : String) : (TextCell.text s : String) = s := rfl

theorem TextCell.text_injective {τ : Type} [TextCell τ] : Function.Injective (TextCell.text : String → τ) := by
  intro a b h
  have hab := congrArg TextCell.decode h
  rw [TextCell.decode_text, TextCell.decode_text] at hab
  exact Option.some.inj hab

inductive StoredText where
  | utf8 (s : String)
  | garbled (bytes : List UInt8)
  deriving DecidableEq

namespace StoredText

def decode : StoredText → Option String
  | utf8 s => some s
  | garbled _ => none

instance : TextCell StoredText where
  text := utf8
  decode := decode
  decode_text _ := rfl
  text_of_decode c s h := by
    cases c with
    | utf8 _ => exact congrArg utf8 (Option.some.inj h).symm
    | garbled _ => cases h

/-- What SQLite compares. -/
def bytes : StoredText → List ℕ
  | utf8 s => s.toUTF8.data.toList.map UInt8.toNat
  | garbled bs => bs.map UInt8.toNat

def sortKey (c : StoredText) : List ℕ ×ₗ Bool := toLex (c.bytes, c.decode.isNone)

theorem sortKey_injective : Function.Injective sortKey := by
  have hmap : Function.Injective (List.map UInt8.toNat) := List.map_injective_iff.2 fun _ _ => UInt8.toNat_inj.1
  intro a b h
  obtain ⟨hbytes, hnone⟩ := Prod.mk.inj (toLex.injective h)
  cases a with
  | utf8 s => cases b with
    | utf8 t =>
      have hdata := hmap hbytes
      exact congrArg utf8 (String.toByteArray_inj.1 (ByteArray.ext (Array.toList_inj.1 hdata)))
    | garbled _ => cases hnone
  | garbled bs => cases b with
    | utf8 _ => cases hnone
    | garbled cs => exact congrArg garbled (hmap hbytes)

instance : LinearOrder StoredText where
  __ := PartialOrder.lift sortKey sortKey_injective
  le_total a b := le_total a.sortKey b.sortKey
  toDecidableLE a b := inferInstanceAs (Decidable (a.sortKey ≤ b.sortKey))
  toDecidableEq := inferInstance

end StoredText

structure Row (τ : Type := String) where
  scope : Scope
  checkpointId : τ
  stateJson : τ
  stateSha256 : τ
  gitCommitHash : Option τ
  isPaused : Bool
  createdAt : ℤ
  worktreeHead : Option τ
  worktreeDiff : Option τ
  deriving DecidableEq

variable {τ : Type}

def Row.key (r : Row τ) : Scope × τ := (r.scope, r.checkpointId)

section

variable [LinearOrder τ]

/-- `ORDER BY created_at DESC, checkpoint_id DESC`: `a` may stand before `b`. -/
def Row.Newer (a b : Row τ) : Prop :=
  b.createdAt < a.createdAt ∨ (b.createdAt = a.createdAt ∧ b.checkpointId ≤ a.checkpointId)

instance (a b : Row τ) : Decidable (a.Newer b) := inferInstanceAs (Decidable (_ ∨ _))

instance : Std.Total (Row.Newer : Row τ → Row τ → Prop) where
  total a b := by
    rcases lt_trichotomy a.createdAt b.createdAt with h | h | h
    · exact Or.inr (Or.inl h)
    · rcases le_total a.checkpointId b.checkpointId with hid | hid
      · exact Or.inr (Or.inr ⟨h, hid⟩)
      · exact Or.inl (Or.inr ⟨h.symm, hid⟩)
    · exact Or.inl (Or.inl h)

instance : IsTrans (Row τ) Row.Newer where
  trans a b c hab hbc := by
    rcases hab with h1 | ⟨h1, h2⟩
    · rcases hbc with h3 | ⟨h3, -⟩
      · exact Or.inl (h3.trans h1)
      · exact Or.inl (h3 ▸ h1)
    · rcases hbc with h3 | ⟨h3, h4⟩
      · exact Or.inl (h1 ▸ h3)
      · exact Or.inr ⟨h3.trans h1, h4.trans h2⟩

structure Table (τ : Type := String) where
  rows : List (Row τ)
  primaryKey : (rows.map Row.key).Nodup
  deriving DecidableEq

namespace Table

def empty : Table τ := ⟨[], List.nodup_nil⟩

/-- `INSERT`; `none` is the `IntegrityError` of a live key. -/
def insert (t : Table τ) (r : Row τ) : Option (Table τ) :=
  if h : r.key ∈ t.rows.map Row.key then none
  else some ⟨t.rows ++ [r], by
    rw [List.map_append, List.nodup_append]
    refine ⟨t.primaryKey, by simp, ?_⟩
    intro a ha b hb
    simp only [List.map_cons, List.map_nil, List.mem_singleton] at hb
    subst hb
    exact fun he => h (he ▸ ha)⟩

def delete (t : Table τ) (p : Row τ → Bool) : Table τ :=
  ⟨t.rows.filter (fun r => !p r), (t.primaryKey).sublist ((List.filter_sublist).map Row.key)⟩

def inScope (t : Table τ) (scope : Scope) : List (Row τ) := t.rows.filter (fun r => r.scope = scope)

end Table

def newestFirst (rows : List (Row τ)) : List (Row τ) := rows.insertionSort Row.Newer

/-! ## The saver -/

section

variable [TextCell τ]

def decodeNullable : Option τ → Option (Option String)
  | none => some none
  | some cell => (TextCell.decode cell).map some

/-- `SELECT *`: every cell of the row is read. -/
def Row.decode (r : Row τ) : Option Row := do
  let checkpointId ← TextCell.decode r.checkpointId
  let stateJson ← TextCell.decode r.stateJson
  let stateSha256 ← TextCell.decode r.stateSha256
  let gitCommitHash ← decodeNullable r.gitCommitHash
  let worktreeHead ← decodeNullable r.worktreeHead
  let worktreeDiff ← decodeNullable r.worktreeDiff
  some ⟨r.scope, checkpointId, stateJson, stateSha256, gitCommitHash, r.isPaused, r.createdAt, worktreeHead, worktreeDiff⟩

end

/-- The page of a scope's rows, before they are read. -/
def list (t : Table τ) (scope : Scope) (limit offset : ℕ) : List (Row τ) :=
  ((newestFirst (t.inScope scope)).drop offset).take limit

/-- `f"cp_{len(self.list(scope))}"`, at the default limit of 100. -/
def defaultId (t : Table τ) (scope : Scope) : String := "cp_" ++ toString (list t scope 100 0).length

/-- `checkpoint_id or …`: an empty id counts as none. -/
def chosenId (t : Table τ) (scope : Scope) (checkpointId : Option String) : String :=
  match checkpointId with
  | none => defaultId t scope
  | some s => if s = "" then defaultId t scope else s

structure PutArgs where
  stateJson : String
  gitCommitHash : Option String := none
  isPaused : Bool := false
  createdAt : Option ℤ := none
  worktreeHead : Option String := none
  worktreeDiff : Option String := none
  deriving DecidableEq

/-- `model_dump_json` of a state with the request `rawInput` and every other default. -/
def dumpedState (rawInput : String) : String :=
  "\x7b\"project_id\":\"p\",\"workspace_path\":\"/w\",\"thread_id\":\"t\",\"raw_input\":\"" ++ rawInput ++
    "\",\"groomed_requirements\":null,\"technical_design\":null,\"chunk_dag\":[],\"tui_state\":\x7b" ++
    "\"active_panel\":\"CANVAS\",\"active_model_provider\":\"\",\"is_paused\":false," ++
    "\"last_interrupt_timestamp\":null,\"critic_gatekeeper_status\":\"READY\"\x7d," ++
    "\"git_state\":\x7b\"active_branch\":\"main\",\"last_checkpoint_commit\":null\x7d," ++
    "\"rate_limiting\":\x7b\"allocated_tokens_tpm\":0,\"current_rpm_count\":0\x7d," ++
    "\"inner_loop_retry_count\":0,\"e2e_retry_count\":0,\"latest_e2e_report\":null\x7d"

/-- The row a put inserts; `created_at or 0`. -/
def putRow [TextCell τ] (sha256 : String → String) (scope : Scope) (cid : String) (args : PutArgs) : Row τ where
  scope := scope
  checkpointId := TextCell.text cid
  stateJson := TextCell.text args.stateJson
  stateSha256 := TextCell.text (sha256 args.stateJson)
  gitCommitHash := args.gitCommitHash.map TextCell.text
  isPaused := args.isPaused
  createdAt := args.createdAt.getD 0
  worktreeHead := args.worktreeHead.map TextCell.text
  worktreeDiff := args.worktreeDiff.map TextCell.text

/-- SQLite's integers hold the time. -/
def PutArgs.Fits (args : PutArgs) : Prop := -2 ^ 63 ≤ args.createdAt.getD 0 ∧ args.createdAt.getD 0 < 2 ^ 63

instance (args : PutArgs) : Decidable args.Fits := inferInstanceAs (Decidable (_ ∧ _))

/-- The `INSERT` of a put; `none` is the `IntegrityError`, or the `OverflowError` of a time that does not fit. -/
def insertPut [TextCell τ] (sha256 : String → String) (t : Table τ) (scope : Scope) (cid : String) (args : PutArgs) :
    Option (Table τ) :=
  if args.Fits then t.insert (putRow sha256 scope cid args) else none

/-- `put`; `none` is what the insertion raises, or the `OperationalError` of the listing the default id is read from. -/
def put [TextCell τ] (sha256 : String → String) (t : Table τ) (scope : Scope) (args : PutArgs)
    (checkpointId : Option String) : Option (Table τ) :=
  if (checkpointId = none ∨ checkpointId = some "") ∧ ∃ r ∈ list t scope 100 0, r.decode = none then none
  else insertPut sha256 t scope (chosenId t scope checkpointId) args

/-- The row under an id, given as the cell it is bound to. -/
def getTuple (t : Table τ) (scope : Scope) (cid : τ) : Option (Row τ) := t.rows.find? (fun r => r.key = (scope, cid))

/-! ## Retention -/

structure RetentionPolicy where
  keep : ℕ := 5

def prunable (t : Table τ) (scope : Scope) : List (Row τ) :=
  newestFirst (t.rows.filter (fun r => decide (r.scope = scope) && !r.isPaused))

/-- The `WHERE` of the `DELETE`. -/
def beyond (t : Table τ) (scope : Scope) (keep : ℕ) (r : Row τ) : Bool :=
  decide (r.scope = scope) && !r.isPaused && !(((prunable t scope).take keep).map (·.checkpointId)).contains r.checkpointId

/-- `RetentionPolicy.prune`: the `rowcount` of the delete and the table it leaves, nothing deleted when there is no row at
offset `keep`; `none` is the `OverflowError` of a `keep` that SQLite's integers do not hold, or the `OperationalError` of
that row's id. -/
def RetentionPolicy.prune [TextCell τ] (policy : RetentionPolicy) (t : Table τ) (scope : Scope) : Option (ℕ × Table τ) :=
  if 2 ^ 63 ≤ policy.keep then none
  else match (prunable t scope)[policy.keep]? with
    | none => some (0, t)
    | some r => (TextCell.decode r.checkpointId).map
      fun _ => (t.rows.countP (beyond t scope policy.keep), t.delete (beyond t scope policy.keep))

/-! ## Quarantine -/

structure Quarantined (τ : Type := String) where
  stateJson : τ
  stateSha256 : τ
  reason : String
  quarantinedAt : ℤ
  deriving DecidableEq

def corruptionReason : String :=
  "state_sha256 mismatch: recomputed digest of state_json does not match the stored digest"

structure Store (τ : Type := String) where
  checkpoints : Table τ
  quarantine : Dict (Scope × τ) (Quarantined τ)
  deriving DecidableEq

def Store.empty : Store τ := ⟨Table.empty, Dict.empty⟩

/-- `_quarantine`: copied aside (`INSERT OR REPLACE`), then removed. -/
def quarantineRow (s : Store τ) (r : Row τ) (now : ℤ) : Store τ where
  checkpoints := s.checkpoints.delete (fun x => decide (x.key = r.key))
  quarantine := s.quarantine.set r.key ⟨r.stateJson, r.stateSha256, corruptionReason, now⟩

section

variable [TextCell τ]

/-- `_fetch_rows` reads the id, the state and the digest. -/
def Row.readable (r : Row τ) : Bool :=
  (TextCell.decode r.checkpointId).isSome && (TextCell.decode r.stateJson).isSome && (TextCell.decode r.stateSha256).isSome

/-- `verify_row`; a row that cannot be read does not verify. -/
def verifyRow (sha256 : String → String) (r : Row τ) : Bool :=
  match TextCell.decode r.stateJson, TextCell.decode r.stateSha256 with
  | some stateJson, some stateSha256 => decide (sha256 stateJson = stateSha256)
  | _, _ => false

inductive Served where
  | missing
  | row (r : Row)
  | corrupt
  | operationalError
  deriving DecidableEq

/-- A row found, as it is read. -/
def Row.served (r : Row τ) : Served :=
  match r.decode with
  | none => .operationalError
  | some row => .row row

/-- What `get_tuple` returns, or raises on a cell that does not decode. -/
def servedTuple (t : Table τ) (scope : Scope) (cid : τ) : Served :=
  match getTuple t scope cid with
  | none => .missing
  | some r => r.served

/-- `get_verified_tuple`: the row when it verifies; else it is quarantined and the newest other row that verifies is
served.  The scope is read whole before anything else is done. -/
def getVerifiedTuple (sha256 : String → String) (s : Store τ) (scope : Scope) (cid : String) (now : ℤ) :
    Served × Store τ :=
  let rows := newestFirst (s.checkpoints.inScope scope)
  if rows.all Row.readable then
    match rows.find? (fun r => r.checkpointId = TextCell.text cid) with
    | none => (.missing, s)
    | some target =>
      if verifyRow sha256 target then (servedTuple s.checkpoints scope (TextCell.text cid), s)
      else match rows.find? (fun r => decide (r.checkpointId ≠ TextCell.text cid) && verifyRow sha256 r) with
        | none => (.corrupt, quarantineRow s target now)
        | some fallback =>
          (servedTuple (quarantineRow s target now).checkpoints scope fallback.checkpointId, quarantineRow s target now)
  else (.operationalError, s)

end

end

/-! ## Where the cells are text -/

@[simp] theorem Row.decode_eq (r : Row) : r.decode = some r := by
  obtain ⟨scope, cid, json, sha, git, paused, created, head, diff⟩ := r
  cases git <;> cases head <;> cases diff <;> rfl

@[simp] theorem Row.served_eq (r : Row) : r.served = .row r := by
  rw [Row.served, Row.decode_eq]

@[simp] theorem Row.readable_eq (r : Row) : r.readable = true := rfl

theorem putRow_eq (sha256 : String → String) (scope : Scope) (cid : String) (args : PutArgs) :
    putRow sha256 scope cid args = ⟨scope, cid, args.stateJson, sha256 args.stateJson, args.gitCommitHash, args.isPaused,
      args.createdAt.getD 0, args.worktreeHead, args.worktreeDiff⟩ := by
  have hcells : ∀ cell : Option String, cell.map TextCell.text = cell := fun cell => by cases cell <;> rfl
  simp only [putRow, hcells]
  rfl

theorem put_eq (sha256 : String → String) (t : Table) (scope : Scope) (args : PutArgs) (checkpointId : Option String) :
    put sha256 t scope args checkpointId = insertPut sha256 t scope (chosenId t scope checkpointId) args := by
  unfold put
  rw [if_neg]
  simp

theorem PutArgs.fits_of_none {args : PutArgs} (h : args.createdAt = none) : args.Fits := by
  rw [PutArgs.Fits, h]
  decide

theorem insertPut_of_fits {args : PutArgs} (h : args.Fits) (sha256 : String → String) (t : Table) (scope : Scope)
    (cid : String) : insertPut sha256 t scope cid args = t.insert (putRow sha256 scope cid args) :=
  if_pos h

theorem insertPut_eq_some_iff {sha256 : String → String} {t t' : Table} {scope : Scope} {cid : String} {args : PutArgs} :
    insertPut sha256 t scope cid args = some t' ↔ args.Fits ∧ t.insert (putRow sha256 scope cid args) = some t' := by
  unfold insertPut
  by_cases h : args.Fits <;> simp [h]

/-! ## Laws of the table -/

theorem Table.mem_delete {t : Table τ} {p : Row τ → Bool} {r : Row τ} : r ∈ (t.delete p).rows ↔ r ∈ t.rows ∧ p r = false := by
  simp [Table.delete]

theorem Table.delete_eq_self {t : Table τ} {p : Row τ → Bool} (h : ∀ r ∈ t.rows, p r = false) : t.delete p = t := by
  obtain ⟨rows, hpk⟩ := t
  unfold Table.delete
  congr 1
  refine List.filter_eq_self.2 (fun r hr => ?_)
  rw [h r hr]
  rfl

theorem Table.mem_inScope {t : Table τ} {scope : Scope} {r : Row τ} : r ∈ t.inScope scope ↔ r ∈ t.rows ∧ r.scope = scope := by
  simp [Table.inScope]

theorem Table.eq_of_key {t : Table τ} {a b : Row τ} (ha : a ∈ t.rows) (hb : b ∈ t.rows) (h : a.key = b.key) : a = b :=
  List.inj_on_of_nodup_map t.primaryKey ha hb h

variable [LinearOrder τ]

theorem Table.insert_eq_some_iff {t t' : Table τ} {r : Row τ} :
    t.insert r = some t' ↔ r.key ∉ t.rows.map Row.key ∧ t'.rows = t.rows ++ [r] := by
  unfold Table.insert
  split
  · rename_i h
    constructor
    · intro hn; cases hn
    · rintro ⟨hno, -⟩
      exact absurd h hno
  · rename_i h
    constructor
    · intro hs
      cases hs
      exact ⟨h, rfl⟩
    · rintro ⟨-, hrows⟩
      obtain ⟨rows, hpk⟩ := t'
      simp only at hrows
      subst hrows
      rfl

theorem Table.insert_eq_none_iff {t : Table τ} {r : Row τ} : t.insert r = none ↔ r.key ∈ t.rows.map Row.key := by
  unfold Table.insert
  split <;> simp_all

@[simp] theorem mem_newestFirst {rows : List (Row τ)} {r : Row τ} : r ∈ newestFirst rows ↔ r ∈ rows :=
  List.mem_insertionSort Row.Newer

@[simp] theorem length_newestFirst (rows : List (Row τ)) : (newestFirst rows).length = rows.length :=
  List.length_insertionSort Row.Newer rows

theorem pairwise_newestFirst (rows : List (Row τ)) : (newestFirst rows).Pairwise Row.Newer :=
  List.pairwise_insertionSort Row.Newer rows

/-- Rows that may stand either way round have one id. -/
theorem Row.Newer.checkpointId_eq {a b : Row τ} (hab : a.Newer b) (hba : b.Newer a) : a.checkpointId = b.checkpointId := by
  rcases hab with h1 | ⟨h1, h2⟩
  · rcases hba with h3 | ⟨h3, -⟩
    · exact absurd h3 (lt_asymm h1)
    · exact absurd h1 (by rw [h3]; exact lt_irrefl _)
  · rcases hba with h3 | ⟨-, h4⟩
    · exact absurd h3 (by rw [h1]; exact lt_irrefl _)
    · exact le_antisymm h4 h2

/-- **A prune that returns**: its probe found no row, or one whose id can be read. -/
theorem RetentionPolicy.prune_cases [TextCell τ] {policy : RetentionPolicy} {t t' : Table τ} {scope : Scope} {n : ℕ}
    (h : policy.prune t scope = some (n, t')) : policy.keep < 2 ^ 63 ∧
      (((prunable t scope)[policy.keep]? = none ∧ n = 0 ∧ t' = t) ∨
        ∃ r, (prunable t scope)[policy.keep]? = some r ∧ TextCell.decode r.checkpointId ≠ none ∧
          n = t.rows.countP (beyond t scope policy.keep) ∧ t' = t.delete (beyond t scope policy.keep)) := by
  unfold RetentionPolicy.prune at h
  split at h
  · cases h
  · rename_i hfits
    refine ⟨not_le.1 hfits, ?_⟩
    cases hp : (prunable t scope)[policy.keep]? with
    | none =>
      rw [hp] at h
      cases h
      exact Or.inl ⟨rfl, rfl, rfl⟩
    | some r =>
      rw [hp] at h
      obtain ⟨cid, hid, hdeleted⟩ := Option.map_eq_some_iff.1 h
      cases hdeleted
      exact Or.inr ⟨r, rfl, by rw [hid]; exact Option.some_ne_none _, rfl, rfl⟩

theorem mem_of_mem_prune [TextCell τ] {policy : RetentionPolicy} {t t' : Table τ} {scope : Scope} {n : ℕ}
    (h : policy.prune t scope = some (n, t')) {r : Row τ} (hr : r ∈ t'.rows) : r ∈ t.rows := by
  obtain ⟨-, ⟨-, -, rfl⟩ | ⟨-, -, -, -, rfl⟩⟩ := RetentionPolicy.prune_cases h
  · exact hr
  · exact (Table.mem_delete.1 hr).1

theorem getTuple_eq_some {t : Table τ} {r : Row τ} (h : r ∈ t.rows) : getTuple t r.scope r.checkpointId = some r := by
  unfold getTuple
  cases hf : t.rows.find? (fun x => x.key = (r.scope, r.checkpointId)) with
  | none =>
    have := List.find?_eq_none.1 hf r h
    simp [Row.key] at this
  | some x =>
    have hx : x.key = r.key := by simpa [Row.key] using List.find?_some hf
    rw [Table.eq_of_key (List.mem_of_find?_eq_some hf) h hx]

/-- The row of a key, in the listing of its scope. -/
theorem find?_newestFirst {t : Table τ} {r : Row τ} (h : r ∈ t.rows) :
    (newestFirst (t.inScope r.scope)).find? (fun x => x.checkpointId = r.checkpointId) = some r := by
  cases hf : (newestFirst (t.inScope r.scope)).find? (fun x => x.checkpointId = r.checkpointId) with
  | none =>
    have hmem : r ∈ newestFirst (t.inScope r.scope) := mem_newestFirst.2 (Table.mem_inScope.2 ⟨h, rfl⟩)
    have hno := List.find?_eq_none.1 hf r hmem
    simp at hno
  | some x =>
    obtain ⟨hx, hxs⟩ := Table.mem_inScope.1 (mem_newestFirst.1 (List.mem_of_find?_eq_some hf))
    have hxid : x.checkpointId = r.checkpointId := by simpa using List.find?_some hf
    rw [Table.eq_of_key hx h (by rw [Row.key, Row.key, hxs, hxid])]

/-- **A row that verifies is served as it stands**, and nothing is quarantined. -/
theorem getVerifiedTuple_of_verifies {sha256 : String → String} {s : Store} {r : Row} (h : r ∈ s.checkpoints.rows)
    (hv : verifyRow sha256 r = true) (now : ℤ) :
    getVerifiedTuple sha256 s r.scope r.checkpointId now = (.row r, s) := by
  unfold getVerifiedTuple
  simp [find?_newestFirst h, hv, servedTuple, getTuple_eq_some h]

end Storage
end DevHarness
