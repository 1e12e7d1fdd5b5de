import DevHarness.Lib.Ddl
import DevHarness.Lib.Dict
import Mathlib.Data.List.Sort
import Mathlib.Data.String.Basic
import Mathlib.Order.WithBot
/-!
# Migrations — the shipped files, their reverse SQL, and `migrate_down` (`storage/migrate.py`)

Connections are in autocommit: each statement of a script commits by itself, and so does each write to the ledger.  A
missing `schema_migrations` is an empty ledger.
-/
namespace DevHarness
namespace Storage

open Lib
open Lib.Ddl (Schema Stmt)

/-- `schema_migrations`: `version` to `applied_at`, with SQLite's `NULL` below every integer. -/
abbrev Ledger := Dict String (WithBot ℤ)

structure Db (S : Type*) where
  schema : S
  ledger : Ledger

def checkpoints : Ddl.Table where
  name := "checkpoints"
  columns := [⟨"project_id", "TEXT NOT NULL", true⟩, ⟨"thread_id", "TEXT NOT NULL", true⟩,
    ⟨"checkpoint_id", "TEXT NOT NULL", true⟩, ⟨"state_json", "TEXT NOT NULL", false⟩,
    ⟨"state_sha256", "TEXT NOT NULL", false⟩, ⟨"git_commit_hash", "TEXT", false⟩,
    ⟨"is_paused", "INTEGER NOT NULL DEFAULT 0", false⟩, ⟨"created_at", "INTEGER NOT NULL", false⟩]
  nodup := by decide
  nonempty := by decide

def checkpointsScope : Ddl.Index := ⟨"idx_checkpoints_scope", "checkpoints", ["project_id", "thread_id", "created_at"]⟩

/-- `0001_init.sql`. -/
def initSql : List Stmt := [.createTable checkpoints true, .createIndex checkpointsScope true]

/-- `0002_worktree_state.sql`. -/
def worktreeStateSql : List Stmt :=
  [.addColumn "checkpoints" ⟨"worktree_head", "TEXT", false⟩, .addColumn "checkpoints" ⟨"worktree_diff", "TEXT", false⟩]

/-- `_migration_files`, each under the version its name starts with. -/
def migrationFiles : List (String × List Stmt) := [("0001", initSql), ("0002", worktreeStateSql)]

/-- `_DOWN_SQL`. -/
def downSql (version : String) : Option (List Stmt) :=
  if version = "0001" then some [.dropTable "checkpoints" true]
  else if version = "0002" then
    some [.dropColumn "checkpoints" "worktree_head", .dropColumn "checkpoints" "worktree_diff"]
  else none

/-- `NULL` is less than every time. -/
local instance nullFirst : LT (WithBot ℤ) := WithBot.instLT

/-- `ORDER BY applied_at DESC, version DESC`. -/
def LaterApplied (a b : String × WithBot ℤ) : Prop := b.2 < a.2 ∨ b.2 = a.2 ∧ b.1 ≤ a.1

instance : DecidableRel LaterApplied := fun a b => @instDecidableOr _ _ (WithBot.decidableLT b.2 a.2) instDecidableAnd

def isAbove (target : Option String) (version : String) : Bool := target.all (fun t => decide (t < version))

/-- The versions to roll back, in the order they will be. -/
def toRollBack (target : Option String) (ledger : Ledger) : List String :=
  ((ledger.items.insertionSort LaterApplied).map Prod.fst).filter (isAbove target)

inductive Down
  | rolledBack (versions : List String)
  | storageError (message remediation : String)
  | operationalError

/-- The loop: a script that is refused part way raises and leaves what it has done. -/
def rollBack : List String → Db Schema → Bool × Db Schema
  | [], db => (true, db)
  | v :: vs, db => match Script.run Ddl.exec ((downSql v).getD []) db.schema with
    | (false, s) => (false, { db with schema := s })
    | (true, s) => rollBack vs { schema := s, ledger := db.ledger.pop v }

def migrateDown (target : Option String) (db : Db Schema) : Down × Db Schema :=
  match (toRollBack target db.ledger).find? (fun v => (downSql v).isNone) with
  | some v => (.storageError ("no reverse SQL registered for migration " ++ v)
      ("Add a _DOWN_SQL entry for this version in storage/migrate.py so the migration can be rolled back."), db)
  | none => match rollBack (toRollBack target db.ledger) db with
    | (true, db') => (.rolledBack (toRollBack target db.ledger), db')
    | (false, db') => (.operationalError, db')

/-! ## What rolling back is for -/

/-- The schema of a set of migrations, over what else the database holds. -/
def schemaOf (base : Schema) (versions : List String) : Option Schema :=
  Script.all Ddl.exec ((migrationFiles.filter (fun f => versions.contains f.1)).flatMap Prod.snd) base

/-- **The schema is the one of the ledger's migrations**; their names are free in the rest. -/
structure LedgerOf (base : Schema) (db : Db Schema) : Prop where
  table : ¬ base.HasTable "checkpoints"
  index : ¬ base.HasIndex "idx_checkpoints_scope"
  schema : schemaOf base db.ledger.keys = some db.schema

/-- **Exactly the versions above the target, downwards, and what is left belongs to the others; or an error and nothing
changed.** -/
def UndoesAbove (base : Schema) (target : Option String) (db : Db Schema) : Down × Db Schema → Prop
  | (.rolledBack vs, db') => vs.Pairwise (fun a b => b < a) ∧
      (∀ v, v ∈ vs ↔ v ∈ db.ledger.keys ∧ isAbove target v = true) ∧
      db'.ledger = db.ledger.keep (fun p => !isAbove target p.1) ∧ schemaOf base db'.ledger.keys = some db'.schema
  | (_, db') => db' = db

/-- `0001` is to go, its time is after that of `0002`, and nothing stops the rollback before it starts. -/
def Skewed (target : Option String) (ledger : Ledger) : Prop :=
  (∃ s t, ledger.get? "0001" = some s ∧ ledger.get? "0002" = some t ∧ t < s) ∧ isAbove target "0001" = true ∧
    ∀ v ∈ ledger.keys, isAbove target v = true → (downSql v).isSome = true

/-! ## The order -/

theorem mem_toRollBack {target : Option String} {ledger : Ledger} {v : String} :
    v ∈ toRollBack target ledger ↔ v ∈ ledger.keys ∧ isAbove target v = true := by
  rw [toRollBack, List.mem_filter, ((List.perm_insertionSort LaterApplied ledger.items).map Prod.fst).mem_iff]
  rfl

theorem nodup_toRollBack (target : Option String) (ledger : Ledger) : (toRollBack target ledger).Nodup := by
  refine List.Nodup.filter _ ?_
  exact ((List.perm_insertionSort LaterApplied ledger.items).map Prod.fst).nodup_iff.2 ledger.nodup

instance : IsTrans (String × WithBot ℤ) LaterApplied where
  trans := by
    rintro a b c (h1 | ⟨h1, h2⟩) (h3 | ⟨h3, h4⟩)
    · exact Or.inl (h3.trans h1)
    · exact Or.inl (h3 ▸ h1)
    · exact Or.inl (h1 ▸ h3)
    · exact Or.inr ⟨h3.trans h1, h4.trans h2⟩

instance : Std.Total LaterApplied where
  total a b := by
    rcases lt_trichotomy a.2 b.2 with h | h | h
    · exact Or.inr (Or.inl h)
    · rcases le_total a.1 b.1 with h' | h'
      · exact Or.inr (Or.inr ⟨h, h'⟩)
      · exact Or.inl (Or.inr ⟨h.symm, h'⟩)
    · exact Or.inl (Or.inl h)

/-- **The clock decides before the version does.** -/
theorem pairwise_toRollBack (target : Option String) (ledger : Ledger) :
    (toRollBack target ledger).Pairwise (fun a b => ∀ s t, ledger.get? a = some s → ledger.get? b = some t →
      t < s ∨ t = s ∧ b ≤ a) := by
  refine List.Pairwise.filter _ (List.pairwise_map.2 ?_)
  refine (List.pairwise_insertionSort LaterApplied ledger.items).imp_of_mem ?_
  rintro ⟨a, sa⟩ ⟨b, tb⟩ ha hb hab s t hs ht
  rw [List.mem_insertionSort, ← Dict.get?_eq_some_iff] at ha hb
  rw [ha] at hs
  rw [hb] at ht
  cases hs
  cases ht
  exact hab

theorem isAbove_trans {target : Option String} {v w : String} (h : v < w) (hv : isAbove target v = true) :
    isAbove target w = true := by
  cases target with
  | none => rfl
  | some t => exact decide_eq_true ((of_decide_eq_true hv).trans h)

/-! ## The schema of the shipped migrations -/

variable {base s s' : Schema} {vs : List String}

@[simp] theorem schemaOf_neither (h1 : "0001" ∉ vs) (h2 : "0002" ∉ vs) : schemaOf base vs = some base := by
  simp [schemaOf, migrationFiles, h1, h2]

@[simp] theorem schemaOf_init (h1 : "0001" ∈ vs) (h2 : "0002" ∉ vs) :
    schemaOf base vs = Script.all Ddl.exec initSql base := by
  simp [schemaOf, migrationFiles, h1, h2]

@[simp] theorem schemaOf_worktreeState (h1 : "0001" ∉ vs) (h2 : "0002" ∈ vs) :
    schemaOf base vs = Script.all Ddl.exec worktreeStateSql base := by
  simp [schemaOf, migrationFiles, h1, h2]

@[simp] theorem schemaOf_both (h1 : "0001" ∈ vs) (h2 : "0002" ∈ vs) :
    schemaOf base vs = Script.all Ddl.exec (initSql ++ worktreeStateSql) base := by
  simp [schemaOf, migrationFiles, h1, h2]

theorem all_worktreeState_of_missing (h : ¬ s.HasTable "checkpoints") :
    Script.all Ddl.exec worktreeStateSql s = none := by
  have hrefused : Ddl.exec (.addColumn "checkpoints" ⟨"worktree_head", "TEXT", false⟩) s = none := by
    rw [Ddl.exec, if_neg (fun hn => h hn.1)]
  exact Script.all_cons_of_none Ddl.exec hrefused _

/-- **The reverse of `0002` undoes it**, though it drops the columns in the order they came. -/
theorem run_downSql_worktreeState (h : Script.all Ddl.exec worktreeStateSql s = some s') :
    Script.run Ddl.exec ((downSql "0002").getD []) s' = (true, s) := by
  obtain ⟨s₁, h1, h2⟩ := Script.all_cons_eq_some.1 h
  obtain ⟨s₂, h3, h4⟩ := Script.all_cons_eq_some.1 h2
  cases h4
  obtain ⟨u, h5, h6⟩ := Ddl.exec_dropColumn_addColumn_addColumn h1 h3
  refine Script.run_of_all Ddl.exec ?_
  show Script.all Ddl.exec [.dropColumn "checkpoints" "worktree_head", .dropColumn "checkpoints" "worktree_diff"] _ = _
  rw [Script.all_cons_of_some Ddl.exec h5, Script.all_cons_of_some Ddl.exec (Ddl.exec_dropColumn_addColumn h6)]
  rfl

/-- **The reverse of `0001` undoes it**: the index goes with its table. -/
theorem run_downSql_init (ht : ¬ s.HasTable "checkpoints") (hi : ¬ s.HasIndex "idx_checkpoints_scope")
    (h : Script.all Ddl.exec initSql s = some s') : Script.run Ddl.exec ((downSql "0001").getD []) s' = (true, s) := by
  obtain ⟨s₁, h1, h2⟩ := Script.all_cons_eq_some.1 h
  obtain ⟨s₂, h3, h4⟩ := Script.all_cons_eq_some.1 h2
  cases h4
  have hi' : ¬ s₁.HasIndex "idx_checkpoints_scope" := fun hn => hi ((Ddl.hasIndex_of_createTable h1 _).1 hn)
  have hdrop : Ddl.exec (.dropTable "checkpoints" true) s' = some s :=
    (Ddl.exec_dropTable_createIndex h3 hi' true).trans (Ddl.exec_dropTable_createTable ht h1 true)
  refine Script.run_of_all Ddl.exec ?_
  show Script.all Ddl.exec [.dropTable "checkpoints" true] _ = _
  rw [Script.all_cons_of_some Ddl.exec hdrop]
  rfl

/-- Taken first, the reverse of `0001` goes through and leaves no table for that of `0002`. -/
theorem run_downSql_skewed (s : Schema) : ∃ s', Script.run Ddl.exec ((downSql "0001").getD []) s = (true, s') ∧
    (Script.run Ddl.exec ((downSql "0002").getD []) s').1 = false := by
  obtain ⟨s', hdrop, hmissing⟩ := Ddl.exec_dropTable_ifExists "checkpoints" s
  refine ⟨s', ?_, ?_⟩
  · refine Script.run_of_all Ddl.exec ?_
    show Script.all Ddl.exec [.dropTable "checkpoints" true] _ = _
    rw [Script.all_cons_of_some Ddl.exec hdrop]
    rfl
  · refine Script.run_of_not_all Ddl.exec ?_
    show Script.all Ddl.exec [.dropColumn "checkpoints" "worktree_head", .dropColumn "checkpoints" "worktree_diff"] _ = _
    refine Script.all_cons_of_none Ddl.exec ?_ _
    rw [Ddl.exec, dif_neg]
    rintro ⟨⟨t, ht, hname, -⟩, -⟩
    exact hmissing ⟨t, ht, hname⟩

/-! ## The run of the loop -/

theorem rollBack_cons_of_run {v : String} {vs : List String} {db : Db Schema} {b : Bool} {s : Schema}
    (h : Script.run Ddl.exec ((downSql v).getD []) db.schema = (b, s)) :
    rollBack (v :: vs) db =
      if b then rollBack vs { schema := s, ledger := db.ledger.pop v } else (false, { db with schema := s }) := by
  rw [rollBack, h]
  cases b <;> rfl

/-- **A rollback that goes through takes its versions out of the ledger.** -/
theorem ledger_rollBack : ∀ {vs : List String} {db db' : Db Schema}, rollBack vs db = (true, db') →
    db'.ledger = db.ledger.keep (fun p => !vs.contains p.1)
  | [], db, db', h => by
    cases h
    exact (Dict.keep_true db.ledger).symm
  | v :: vs, db, db', h => by
    rcases hrun : Script.run Ddl.exec ((downSql v).getD []) db.schema with ⟨b, s⟩
    rw [rollBack_cons_of_run hrun] at h
    cases b with
    | false => cases h
    | true =>
      rw [ledger_rollBack h, Dict.pop_eq_keep, Dict.keep_keep]
      refine Dict.keep_congr _ (fun p _ => ?_)
      by_cases hp : p.1 = v <;> simp [hp]

theorem registered {v : String} (h : (downSql v).isNone = false) : v = "0001" ∨ v = "0002" := by
  unfold downSql at h
  split at h
  · exact Or.inl ‹_›
  · split at h
    · exact Or.inr ‹_›
    · cases h

/-- A list of two names, none twice. -/
theorem pair_cases {a b : String} : ∀ {l : List String}, l.Nodup → (∀ x ∈ l, x = a ∨ x = b) →
    l = [] ∨ l = [a] ∨ l = [b] ∨ l = [a, b] ∨ l = [b, a]
  | [], _, _ => Or.inl rfl
  | [x], _, h => by
    rcases h x (List.mem_singleton_self x) with rfl | rfl <;> simp
  | [x, y], hn, h => by
    have hxy : x ≠ y := fun he => by simp [he] at hn
    rcases h x (by simp) with rfl | rfl <;> rcases h y (by simp) with rfl | rfl <;> simp_all
  | x :: y :: z :: l, hn, h => by
    have hx := h x (by simp)
    have hy := h y (by simp)
    have hz := h z (by simp)
    simp only [List.nodup_cons, List.mem_cons, not_or] at hn
    rcases hx with rfl | rfl <;> rcases hy with rfl | rfl <;> rcases hz with rfl | rfl <;> simp_all

/-! ## What a rollback leaves -/

section Outcome

variable {target : Option String} {db db' : Db Schema}

/-- A version is in the ledger left when it was in the ledger and is not above the target. -/
theorem mem_keys_of_rollBack (h : rollBack (toRollBack target db.ledger) db = (true, db')) {v : String} :
    v ∈ db'.ledger.keys ↔ v ∈ db.ledger.keys ∧ isAbove target v = false := by
  rw [ledger_rollBack h, Dict.mem_keys_keep (fun v => !(toRollBack target db.ledger).contains v)]
  simp only [Bool.not_eq_true', List.contains_eq_mem, decide_eq_false_iff_not, mem_toRollBack]
  constructor
  · rintro ⟨hv, hn⟩
    exact ⟨hv, by simpa using fun ha => hn ⟨hv, ha⟩⟩
  · rintro ⟨hv, ha⟩
    exact ⟨hv, fun hn => by simp [ha] at hn⟩

/-- **The loop went through downwards, and the schema fits the ledger left.** -/
theorem undoesAbove_of_rollBack (h : rollBack (toRollBack target db.ledger) db = (true, db'))
    (hdown : (toRollBack target db.ledger).Pairwise (fun a b => b < a))
    (hschema : schemaOf base db'.ledger.keys = some db'.schema) :
    UndoesAbove base target db (.rolledBack (toRollBack target db.ledger), db') := by
  refine ⟨hdown, fun v => mem_toRollBack, ?_, hschema⟩
  rw [ledger_rollBack h]
  refine Dict.keep_congr _ (fun p hp => ?_)
  have hkey : p.1 ∈ db.ledger.keys := List.mem_map_of_mem hp
  rw [List.contains_eq_mem]
  refine congrArg (fun b => !b) ?_
  cases ha : isAbove target p.1 with
  | true => exact decide_eq_true (mem_toRollBack.2 ⟨hkey, ha⟩)
  | false => exact decide_eq_false (fun hm => by rw [(mem_toRollBack.1 hm).2] at ha; cases ha)

/-- Where both are to go, both are above the target. -/
theorem Skewed.mem (h : Skewed target db.ledger) :
    "0001" ∈ toRollBack target db.ledger ∧ "0002" ∈ toRollBack target db.ledger := by
  obtain ⟨⟨s, t, h1, h2, -⟩, ha, -⟩ := h
  have hlt : ("0001" : String) < "0002" := by decide
  exact ⟨mem_toRollBack.2 ⟨(Dict.mem_keys_iff _ _).2 ⟨s, h1⟩, ha⟩,
    mem_toRollBack.2 ⟨(Dict.mem_keys_iff _ _).2 ⟨t, h2⟩, isAbove_trans hlt ha⟩⟩

theorem LedgerOf.split (h : LedgerOf base db) (h2 : "0002" ∈ db.ledger.keys) :
    "0001" ∈ db.ledger.keys ∧ ∃ s, Script.all Ddl.exec initSql base = some s ∧
      Script.all Ddl.exec worktreeStateSql s = some db.schema := by
  have hs := h.schema
  by_cases h1 : "0001" ∈ db.ledger.keys
  · rw [schemaOf_both h1 h2, Script.all_append, Option.bind_eq_some_iff] at hs
    exact ⟨h1, hs⟩
  · rw [schemaOf_worktreeState h1 h2, all_worktreeState_of_missing h.table] at hs
    cases hs

/-- **In the wrong order**: the table is dropped and its ledger row gone when the second script is refused. -/
theorem not_undoesAbove_of_order (h : toRollBack target db.ledger = ["0001", "0002"]) :
    ¬ UndoesAbove base target db (migrateDown target db) := by
  have hkey : "0001" ∈ db.ledger.keys := (mem_toRollBack.1 (by rw [h]; exact List.mem_cons_self)).1
  obtain ⟨s, hinit, hstate⟩ := run_downSql_skewed db.schema
  rcases hrun : Script.run Ddl.exec ((downSql "0002").getD []) s with ⟨b, s'⟩
  rw [hrun] at hstate
  cases hstate
  have hdown : migrateDown target db = (.operationalError, { schema := s', ledger := db.ledger.pop "0001" }) := by
    have hall : (["0001", "0002"] : List String).find? (fun v => (downSql v).isNone) = none := by decide
    have hloop : rollBack ["0001", "0002"] db = (false, { schema := s', ledger := db.ledger.pop "0001" }) := by
      rw [rollBack_cons_of_run hinit, if_pos rfl, rollBack_cons_of_run hrun]
      rfl
    rw [migrateDown, h, hall]
    dsimp only
    rw [hloop]
  rw [hdown]
  intro heq
  have hledger : db.ledger.pop "0001" = db.ledger := congrArg Db.ledger heq
  rw [← hledger, Dict.mem_keys_iff] at hkey
  obtain ⟨t, ht⟩ := hkey
  rw [Dict.get?_pop_self] at ht
  cases ht

/-- The loop goes through, downwards, to the schema of the ledger left: that is all the rollback has to do. -/
theorem undoesAbove_of_schema {db' : Db Schema} (hreg : ∀ v ∈ toRollBack target db.ledger, (downSql v).isNone = false)
    (hloop : rollBack (toRollBack target db.ledger) db = (true, db'))
    (hdown : (toRollBack target db.ledger).Pairwise (fun a b => b < a))
    (hschema : schemaOf base db'.ledger.keys = some db'.schema) : UndoesAbove base target db (migrateDown target db) := by
  have hfind : (toRollBack target db.ledger).find? (fun v => (downSql v).isNone) = none := by
    rw [List.find?_eq_none]
    intro v hv
    rw [hreg v hv]
    exact Bool.false_ne_true
  rw [migrateDown, hfind]
  dsimp only
  rw [hloop]
  exact undoesAbove_of_rollBack hloop hdown hschema

/-- `0001` alone: `0002` is not in the ledger. -/
theorem undoesAbove_init (h : LedgerOf base db) (hreg : ∀ v ∈ toRollBack target db.ledger, (downSql v).isNone = false)
    (hl : toRollBack target db.ledger = ["0001"]) : UndoesAbove base target db (migrateDown target db) := by
  have hmem := fun v => @mem_toRollBack target db.ledger v
  obtain ⟨h1, ha⟩ := (hmem "0001").1 (by rw [hl]; exact List.mem_cons_self)
  have h2 : "0002" ∉ db.ledger.keys := by
    intro h2
    have hin := (hmem "0002").2 ⟨h2, isAbove_trans (by decide) ha⟩
    rw [hl] at hin
    exact absurd hin (by decide)
  have hs := h.schema
  rw [schemaOf_init h1 h2] at hs
  have hloop : rollBack (toRollBack target db.ledger) db = (true, ⟨base, db.ledger.pop "0001"⟩) := by
    rw [hl, rollBack_cons_of_run (run_downSql_init h.table h.index hs)]
    rfl
  refine undoesAbove_of_schema hreg hloop (by rw [hl]; exact List.pairwise_singleton _ _) ?_
  have hkeys := fun v => @mem_keys_of_rollBack target db _ hloop v
  exact schemaOf_neither (fun hn => by simp [hkeys, ha] at hn) (fun hn => h2 ((hkeys "0002").1 hn).1)

/-- `0002` alone: `0001` is below the target. -/
theorem undoesAbove_worktreeState (h : LedgerOf base db)
    (hreg : ∀ v ∈ toRollBack target db.ledger, (downSql v).isNone = false)
    (hl : toRollBack target db.ledger = ["0002"]) : UndoesAbove base target db (migrateDown target db) := by
  have hmem := fun v => @mem_toRollBack target db.ledger v
  obtain ⟨h2, ha⟩ := (hmem "0002").1 (by rw [hl]; exact List.mem_cons_self)
  obtain ⟨h1, s, hinit, hstate⟩ := h.split h2
  have ha1 : isAbove target "0001" = false := by
    rw [← Bool.not_eq_true]
    intro ha1
    have hin := (hmem "0001").2 ⟨h1, ha1⟩
    rw [hl] at hin
    exact absurd hin (by decide)
  have hloop : rollBack (toRollBack target db.ledger) db = (true, ⟨s, db.ledger.pop "0002"⟩) := by
    rw [hl, rollBack_cons_of_run (run_downSql_worktreeState hstate)]
    rfl
  refine undoesAbove_of_schema hreg hloop (by rw [hl]; exact List.pairwise_singleton _ _) ?_
  have hkeys := fun v => @mem_keys_of_rollBack target db _ hloop v
  rw [schemaOf_init ((hkeys "0001").2 ⟨h1, ha1⟩) (fun hn => by simp [hkeys, ha] at hn)]
  exact hinit

theorem undoesAbove_both (h : LedgerOf base db) (hreg : ∀ v ∈ toRollBack target db.ledger, (downSql v).isNone = false)
    (hl : toRollBack target db.ledger = ["0002", "0001"]) : UndoesAbove base target db (migrateDown target db) := by
  have hmem := fun v => @mem_toRollBack target db.ledger v
  obtain ⟨h2, ha2⟩ := (hmem "0002").1 (by rw [hl]; exact List.mem_cons_self)
  obtain ⟨-, ha1⟩ := (hmem "0001").1 (by rw [hl]; exact List.mem_cons_of_mem _ List.mem_cons_self)
  obtain ⟨h1, s, hinit, hstate⟩ := h.split h2
  have hloop : rollBack (toRollBack target db.ledger) db =
      (true, ⟨base, (db.ledger.pop "0002").pop "0001"⟩) := by
    rw [hl, rollBack_cons_of_run (run_downSql_worktreeState hstate), if_pos rfl,
      rollBack_cons_of_run (run_downSql_init h.table h.index hinit)]
    rfl
  refine undoesAbove_of_schema hreg hloop (by rw [hl]; exact List.pairwise_pair.2 (by decide)) ?_
  have hkeys := fun v => @mem_keys_of_rollBack target db _ hloop v
  exact schemaOf_neither (fun hn => by simp [hkeys, ha1] at hn) (fun hn => by simp [hkeys, ha2] at hn)

theorem undoesAbove_of_order (h : LedgerOf base db) (hreg : ∀ v ∈ toRollBack target db.ledger, (downSql v).isNone = false)
    (horder : toRollBack target db.ledger ≠ ["0001", "0002"]) : UndoesAbove base target db (migrateDown target db) := by
  rcases pair_cases (nodup_toRollBack target db.ledger) (fun v hv => registered (hreg v hv)) with
    hl | hl | hl | hl | hl
  · exact undoesAbove_of_schema hreg (by rw [hl]; rfl) (by rw [hl]; exact List.Pairwise.nil) h.schema
  · exact undoesAbove_init h hreg hl
  · exact undoesAbove_worktreeState h hreg hl
  · exact absurd hl horder
  · exact undoesAbove_both h hreg hl

/-- The order is wrong exactly under the skew. -/
theorem order_iff_skewed (hreg : ∀ v ∈ toRollBack target db.ledger, (downSql v).isNone = false) :
    toRollBack target db.ledger = ["0001", "0002"] ↔ Skewed target db.ledger := by
  have hpairs := pairwise_toRollBack target db.ledger
  have hlt : ¬ ("0002" : String) ≤ "0001" := by decide
  constructor
  · intro hl
    obtain ⟨h1, ha⟩ := mem_toRollBack.1 (show "0001" ∈ toRollBack target db.ledger by rw [hl]; decide)
    obtain ⟨h2, -⟩ := mem_toRollBack.1 (show "0002" ∈ toRollBack target db.ledger by rw [hl]; decide)
    obtain ⟨s, hs⟩ := (Dict.mem_keys_iff _ _).1 h1
    obtain ⟨t, ht⟩ := (Dict.mem_keys_iff _ _).1 h2
    rw [hl, List.pairwise_pair] at hpairs
    refine ⟨⟨s, t, hs, ht, ?_⟩, ha, fun v hv hva => ?_⟩
    · exact (hpairs s t hs ht).resolve_right (fun hn => hlt hn.2)
    · have hv' := hreg v (mem_toRollBack.2 ⟨hv, hva⟩)
      rw [Option.isNone_eq_false_iff] at hv'
      exact hv'
  · intro hsk
    obtain ⟨hm1, hm2⟩ := hsk.mem
    obtain ⟨⟨s, t, hs, ht, hst⟩, -, -⟩ := hsk
    rcases pair_cases (nodup_toRollBack target db.ledger) (fun v hv => registered (hreg v hv)) with
      hl | hl | hl | hl | hl
    · rw [hl] at hm1
      cases hm1
    · rw [hl] at hm2
      exact absurd hm2 (by decide)
    · rw [hl] at hm1
      exact absurd hm1 (by decide)
    · exact hl
    · rw [hl, List.pairwise_pair] at hpairs
      rcases hpairs t s ht hs with h | ⟨h, -⟩
      · exact absurd h hst.not_gt
      · exact absurd h hst.ne'

end Outcome

/-- **`migrate_down`**: it undoes exactly what is above the target, or fails with nothing changed, unless the clock puts
`0001` after `0002` and both are to go. -/
theorem undoesAbove_iff {base : Schema} {db : Db Schema} (h : LedgerOf base db) (target : Option String) :
    UndoesAbove base target db (migrateDown target db) ↔ ¬ Skewed target db.ledger := by
  by_cases hreg : ∀ v ∈ toRollBack target db.ledger, (downSql v).isNone = false
  · rw [← order_iff_skewed hreg]
    exact ⟨fun hu hl => not_undoesAbove_of_order hl hu, undoesAbove_of_order h hreg⟩
  · -- a version without reverse SQL: nothing is touched
    simp only [not_forall, Bool.not_eq_false] at hreg
    obtain ⟨v, hv, hnone⟩ := hreg
    refine iff_of_true ?_ ?_
    · have hfind : ((toRollBack target db.ledger).find? (fun v => (downSql v).isNone)).isSome = true :=
        List.find?_isSome.2 ⟨v, hv, hnone⟩
      obtain ⟨w, hw⟩ := Option.isSome_iff_exists.1 hfind
      rw [migrateDown, hw]
      exact rfl
    · rintro ⟨-, -, hall⟩
      have hsome := hall v (mem_toRollBack.1 hv).1 (mem_toRollBack.1 hv).2
      rw [Option.isNone_iff_eq_none.1 hnone] at hsome
      cases hsome

/-- A database of the two shipped migrations alone, applied at the two times. -/
def shipped (init worktreeState : ℤ) : Db Schema :=
  ⟨(schemaOf .empty ["0001", "0002"]).getD .empty, Dict.ofList [("0001", ↑init), ("0002", ↑worktreeState)]⟩

/-- Applied in order, and taken back to `0001`. -/
theorem undoesAbove_in_order :
    UndoesAbove .empty (some "0001") (shipped 10 20) (migrateDown (some "0001") (shipped 10 20)) :=
  (undoesAbove_iff ⟨by decide, by decide, by decide +kernel⟩ (some "0001")).2 (fun h => absurd h.2.1 (by decide))

/-- The clock went back by ten seconds between the two: everything is to go, the table goes first, and the rollback
fails with the schema and the ledger changed. -/
theorem skewed_half_rolled_back : LedgerOf .empty (shipped 20 10) ∧
    ¬ UndoesAbove .empty none (shipped 20 10) (migrateDown none (shipped 20 10)) :=
  ⟨⟨by decide, by decide, by decide +kernel⟩, not_undoesAbove_of_order (by decide)⟩

end Storage
end DevHarness
