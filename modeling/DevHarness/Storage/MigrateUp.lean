import DevHarness.Storage.Migrations
import DevHarness.Lib.Machine
import Mathlib.Logic.Function.Basic
/-!
# MigrateUp — `migrate_up`, cut anywhere and run by several processes at once (`storage/migrate.py`)

A run reads the ledger once and then goes through its files: the statements of each one by one, and its ledger row.
Whatever SQL the files hold, a statement is refused or takes the schema to a schema.  A run that is cut off takes no
further step; `begin` at any later time is its next call.
-/
namespace DevHarness
namespace Storage

open Lib

variable {A S R : Type*}

def pending (files : List (String × List A)) (ledger : Ledger) : List (String × List A) :=
  files.filter (fun f => !ledger.keys.contains f.1)

/-- `INSERT OR IGNORE`. -/
def insertOrIgnore (ledger : Ledger) (version : String) (appliedAt : ℤ) : Ledger :=
  if version ∈ ledger.keys then ledger else ledger.set version appliedAt

/-- The loop over the files; `now` is what the clock reads at each insert. -/
def migrateEach (exec : A → S → Option S) (now : String → ℤ) :
    List (String × List A) → Db S → Option (List String) × Db S
  | [], db => (some [], db)
  | (version, sql) :: files, db => match Script.run exec sql db.schema with
    | (false, s) => (none, { db with schema := s })
    | (true, s) =>
      let rest := migrateEach exec now files { schema := s, ledger := insertOrIgnore db.ledger version (now version) }
      (rest.1.map (version :: ·), rest.2)

/-- `migrate_up`: the versions applied, `none` for an `OperationalError`, and the database left. -/
def migrateUp (exec : A → S → Option S) (files : List (String × List A)) (now : String → ℤ) (db : Db S) :
    Option (List String) × Db S :=
  migrateEach exec now (pending files db.ledger) db

/-! ## The same, step by step -/

inductive Op (A : Type*)
  | run (statement : A)
  | record (version : String)

def opsOf (files : List (String × List A)) : List (Op A) :=
  files.flatMap (fun f => f.2.map Op.run ++ [Op.record f.1])

def Op.statement? : Op A → Option A
  | .run a => some a
  | .record _ => none

def Op.version? : Op A → Option String
  | .run _ => none
  | .record version => some version

def statements (ops : List (Op A)) : List A := ops.filterMap Op.statement?

def recorded (ops : List (Op A)) : List String := ops.filterMap Op.version?

def Op.exec (exec : A → S → Option S) (appliedAt : ℤ) : Op A → Db S → Option (Db S)
  | .run a, db => (exec a db.schema).map (fun s => { db with schema := s })
  | .record version, db => some { db with ledger := insertOrIgnore db.ledger version appliedAt }

/-- What each run has still to do.  `left` is no value of the program: the least any run has had left. -/
structure Migrating (R A S : Type*) where
  db : Db S
  runs : R → Option (List (Op A))
  left : ℕ

inductive Label (R : Type*)
  | begin (run : R)
  | next (run : R) (now : ℤ)

/-- The run's operations left are replaced. -/
def Migrating.turn [DecidableEq R] (t : Migrating R A S) (r : R) (ops : Option (List (Op A))) : Migrating R A S :=
  { t with runs := Function.update t.runs r ops }

def Migrating.advance [DecidableEq R] (t : Migrating R A S) (r : R) (db : Db S) (ops : List (Op A)) :
    Migrating R A S :=
  { t.turn r (some ops) with db := db, left := min t.left ops.length }

@[simp] theorem Migrating.runs_turn [DecidableEq R] (t : Migrating R A S) (r : R) (ops : Option (List (Op A))) :
    (t.turn r ops).runs = Function.update t.runs r ops := rfl

@[simp] theorem Migrating.runs_turn_self [DecidableEq R] (t : Migrating R A S) (r : R) (ops : Option (List (Op A))) :
    (t.turn r ops).runs r = ops := by
  rw [runs_turn, Function.update_self]

/-- A statement refused raises, and its run is over. -/
def migrateStep [DecidableEq R] (exec : A → S → Option S) (files : List (String × List A)) (s : Migrating R A S) :
    Label R → Option (Migrating R A S)
  | .begin r => some (s.turn r (some (opsOf (pending files s.db.ledger))))
  | .next r now => match s.runs r with
    | some (op :: ops) => match op.exec exec now s.db with
      | none => some (s.turn r none)
      | some db => some (s.advance r db ops)
    | _ => none

def migrating [DecidableEq R] (exec : A → S → Option S) (files : List (String × List A)) :
    Machine (Migrating R A S) (Label R) :=
  ⟨migrateStep exec files⟩

/-- Before any run. -/
def untouched (files : List (String × List A)) (db : Db S) : Migrating R A S :=
  ⟨db, fun _ => none, (opsOf (pending files db.ledger)).length⟩

/-- **A later call succeeds, with the schema of each migration applied once and a ledger row for each.** -/
def LaterMigrates (exec : A → S → Option S) (files : List (String × List A)) (start : Db S) (final : S)
    (now : String → ℤ) (t : Migrating R A S) : Prop :=
  ∃ versions db, migrateUp exec files now t.db = (some versions, db) ∧ db.schema = final ∧
    ∀ v, v ∈ db.ledger.keys ↔ v ∈ start.ledger.keys ∨ v ∈ files.map Prod.fst

/-- Repeated, the statement is refused or does nothing. -/
def Harmless (exec : A → S → Option S) (s : S) (a : A) : Prop := exec a s = none ∨ Script.Idle exec s a

/-- A step that executes a statement some run has executed already meets a harmless one. -/
def RepeatsHarmless (exec : A → S → Option S) (s : Migrating R A S) : Label R → Migrating R A S → Prop
  | .begin _, _ => True
  | .next r _, _ => ∀ a ops, s.runs r = some (.run a :: ops) → s.left ≤ ops.length → Harmless exec s.db.schema a

/-- The statements executed of the migrations that have no ledger row. -/
def unrecorded (files : List (String × List A)) (t : Migrating R A S) : List A :=
  let ops := opsOf (pending files t.db.ledger)
  statements (ops.take (ops.length - t.left))

/-! ## Operations -/

@[simp] theorem statements_append (xs ys : List (Op A)) : statements (xs ++ ys) = statements xs ++ statements ys :=
  List.filterMap_append

@[simp] theorem recorded_append (xs ys : List (Op A)) : recorded (xs ++ ys) = recorded xs ++ recorded ys :=
  List.filterMap_append

@[simp] theorem statements_run (sql : List A) : statements (sql.map Op.run) = sql := by
  simp [statements, List.filterMap_map, Function.comp_def, Op.statement?]

@[simp] theorem recorded_run (sql : List A) : recorded (sql.map Op.run) = [] := by
  simp [recorded, Op.version?]

@[simp] theorem statements_record (v : String) (ops : List (Op A)) : statements (.record v :: ops) = statements ops :=
  rfl

@[simp] theorem recorded_record (v : String) (ops : List (Op A)) : recorded (.record v :: ops) = v :: recorded ops :=
  rfl

@[simp] theorem statements_nil : statements ([] : List (Op A)) = [] := rfl

@[simp] theorem recorded_nil : recorded ([] : List (Op A)) = [] := rfl

@[simp] theorem opsOf_cons (f : String × List A) (files : List (String × List A)) :
    opsOf (f :: files) = (f.2.map Op.run ++ [Op.record f.1]) ++ opsOf files := by
  simp [opsOf]

theorem statements_opsOf (files : List (String × List A)) : statements (opsOf files) = files.flatMap Prod.snd := by
  induction files with
  | nil => rfl
  | cons f files ih => simp [ih]

theorem recorded_opsOf (files : List (String × List A)) : recorded (opsOf files) = files.map Prod.fst := by
  induction files with
  | nil => rfl
  | cons f files ih => simp [ih]

theorem mem_keys_insertOrIgnore {ledger : Ledger} {version v : String} {appliedAt : ℤ} :
    v ∈ (insertOrIgnore ledger version appliedAt).keys ↔ v ∈ ledger.keys ∨ v = version := by
  unfold insertOrIgnore
  split
  · rename_i h
    exact ⟨Or.inl, fun hv => hv.elim id (fun he => he ▸ h)⟩
  · simp only [Dict.mem_keys_iff, Dict.get?_set]
    by_cases hv : v = version <;> simp [hv]

/-- A cut of one file's operations that has its ledger row has all of them. -/
theorem block_cut {f : String × List A} {past later : List (Op A)} (h : recorded past ≠ [])
    (hcut : f.2.map Op.run ++ [Op.record f.1] = past ++ later) : later = [] := by
  rcases List.eq_nil_or_concat later with hnil | ⟨init, last, rfl⟩
  · exact hnil
  · rw [List.concat_eq_append, ← List.append_assoc] at hcut
    have hinit := (List.append_inj' hcut rfl).1
    have hrec : recorded past ++ recorded init = [] := by rw [← recorded_append, ← hinit, recorded_run]
    exact absurd (List.append_eq_nil_iff.1 hrec).1 h

/-- **What a ledger read leaves to do**: the operations from the start of the first unrecorded migration on. -/
theorem opsOf_unrecorded : ∀ {files : List (String × List A)}, (files.map Prod.fst).Nodup →
    ∀ {past rest : List (Op A)}, past ++ rest = opsOf files →
      ∃ part, opsOf (files.filter (fun f => !(recorded past).contains f.1)) = part ++ rest ∧ part <:+ past ∧
        recorded part = []
  | [], _, past, rest, h => by
    obtain ⟨rfl, rfl⟩ := List.append_eq_nil_iff.1 h
    exact ⟨[], rfl, List.suffix_refl _, rfl⟩
  | f :: files, hn, past, rest, h => by
    by_cases hnone : recorded past = []
    · refine ⟨past, ?_, List.suffix_refl _, hnone⟩
      rw [h, hnone]
      simp
    · -- past the first file: its row is there
      have hlong : ∃ more, past = (f.2.map Op.run ++ [Op.record f.1]) ++ more ∧ more ++ rest = opsOf files := by
        rw [opsOf_cons] at h
        rcases List.append_eq_append_iff.1 h with ⟨later, hblock, hrest⟩ | ⟨more, hpast, hmore⟩
        · have hnil := block_cut hnone hblock
          subst hnil
          exact ⟨[], by simpa using hblock.symm, by simpa using hrest⟩
        · exact ⟨more, hpast, hmore.symm⟩
      obtain ⟨more, rfl, hmore⟩ := hlong
      rw [List.map_cons, List.nodup_cons] at hn
      obtain ⟨part, hops, hpart, hrec⟩ := opsOf_unrecorded hn.2 hmore
      refine ⟨part, ?_, hpart.trans (List.suffix_append _ _), hrec⟩
      have hsame : files.filter (fun g => !(recorded ((f.2.map Op.run ++ [Op.record f.1]) ++ more)).contains g.1) =
          files.filter (fun g => !(recorded more).contains g.1) := by
        refine List.filter_congr (fun g hg => ?_)
        have hne : g.1 ≠ f.1 := fun he => hn.1 (he ▸ List.mem_map_of_mem hg)
        simp [hne]
      rw [List.filter_cons_of_neg (by simp), hsame]
      exact hops

/-! ## What every state of a run is -/

section Runs

variable {exec : A → S → Option S} {files : List (String × List A)} {start : Db S}
  {t t' : Migrating R A S}

/-- The operations left to a run: some of `past` again, and the rest. -/
def Placed (past rest ops : List (Op A)) : Prop := ∃ again, ops = again ++ rest ∧ again <:+ past

/-- `past` is what the furthest run has done, and the database is as if it alone had run; every other run is somewhere
behind it. -/
structure AsIfOnce (exec : A → S → Option S) (files : List (String × List A)) (start : Db S) (t : Migrating R A S)
    (past rest : List (Op A)) : Prop where
  split : past ++ rest = opsOf (pending files start.ledger)
  left : t.left = rest.length
  schema : Script.all exec (statements past) start.schema = some t.db.schema
  ledger : ∀ v, v ∈ t.db.ledger.keys ↔ v ∈ start.ledger.keys ∨ v ∈ recorded past
  runs : ∀ r ops, t.runs r = some ops → Placed past rest ops

theorem asIfOnce_untouched : AsIfOnce exec files start (untouched files start : Migrating R A S) []
    (opsOf (pending files start.ledger)) where
  split := rfl
  left := rfl
  schema := rfl
  ledger := by simp [untouched]
  runs := by simp [untouched]

theorem nodup_pending (hv : (files.map Prod.fst).Nodup) (ledger : Ledger) :
    ((pending files ledger).map Prod.fst).Nodup :=
  hv.sublist (List.filter_sublist.map Prod.fst)

/-- **A run that begins now** repeats the unrecorded part of `past` and goes on with the rest. -/
theorem AsIfOnce.ops {past rest : List (Op A)} (h : AsIfOnce exec files start t past rest)
    (hv : (files.map Prod.fst).Nodup) :
    ∃ part, opsOf (pending files t.db.ledger) = part ++ rest ∧ part <:+ past ∧ recorded part = [] := by
  obtain ⟨part, hops, hpart, hrec⟩ := opsOf_unrecorded (nodup_pending hv start.ledger) h.split
  refine ⟨part, ?_, hpart, hrec⟩
  rw [← hops, pending, pending, List.filter_filter]
  refine congrArg opsOf (List.filter_congr (fun f _ => ?_))
  rw [Bool.eq_iff_iff]
  simp [h.ledger, and_comm]

/-! ## A later call -/

theorem migrateEach_of_all {now : String → ℤ} : ∀ {files : List (String × List A)} {db : Db S} {s : S},
    Script.all exec (files.flatMap Prod.snd) db.schema = some s →
      ∃ ledger, migrateEach exec now files db = (some (files.map Prod.fst), ⟨s, ledger⟩) ∧
        ∀ v, v ∈ ledger.keys ↔ v ∈ db.ledger.keys ∨ v ∈ files.map Prod.fst
  | [], db, s, h => by
    cases h
    exact ⟨db.ledger, rfl, by simp⟩
  | (version, sql) :: files, db, s, h => by
    rw [List.flatMap_cons, Script.all_append, Option.bind_eq_some_iff] at h
    obtain ⟨s', hsql, hrest⟩ := h
    obtain ⟨ledger, heach, hkeys⟩ := @migrateEach_of_all now files
      { schema := s', ledger := insertOrIgnore db.ledger version (now version) } s hrest
    refine ⟨ledger, ?_, fun v => ?_⟩
    · rw [migrateEach, Script.run_of_all exec hsql]
      dsimp only
      rw [heach]
      rfl
    · rw [hkeys, mem_keys_insertOrIgnore, List.map_cons, List.mem_cons, or_assoc]

theorem migrateEach_of_not_all {now : String → ℤ} : ∀ {files : List (String × List A)} {db : Db S},
    Script.all exec (files.flatMap Prod.snd) db.schema = none → (migrateEach exec now files db).1 = none
  | [], db, h => by cases h
  | (version, sql) :: files, db, h => by
    rw [List.flatMap_cons, Script.all_append, Option.bind_eq_none_iff] at h
    rw [migrateEach]
    cases hsql : Script.all exec sql db.schema with
    | none =>
      have hrun := Script.run_of_not_all exec hsql
      split
      · rfl
      · rename_i s heq
        rw [heq] at hrun
        cases hrun
    | some s =>
      rw [Script.run_of_all exec hsql]
      dsimp only
      rw [migrateEach_of_not_all (h s hsql)]
      rfl

theorem AsIfOnce.unrecorded {past rest : List (Op A)} (h : AsIfOnce exec files start t past rest)
    (hv : (files.map Prod.fst).Nodup) :
    ∃ part, opsOf (pending files t.db.ledger) = part ++ rest ∧ unrecorded files t = statements part := by
  obtain ⟨part, hops, -, -⟩ := h.ops hv
  refine ⟨part, hops, ?_⟩
  rw [Storage.unrecorded, hops, h.left]
  simp

theorem AsIfOnce.keys {past rest : List (Op A)} (h : AsIfOnce exec files start t past rest) (v : String) :
    v ∈ t.db.ledger.keys ∨ v ∈ (pending files t.db.ledger).map Prod.fst ↔
      v ∈ start.ledger.keys ∨ v ∈ files.map Prod.fst := by
  have hpast : v ∈ recorded past → v ∈ files.map Prod.fst := by
    intro hr
    have hops : v ∈ recorded (opsOf (pending files start.ledger)) := by
      rw [← h.split, recorded_append]
      exact List.mem_append_left _ hr
    rw [recorded_opsOf] at hops
    exact (List.filter_sublist.map Prod.fst).subset hops
  by_cases hk : v ∈ t.db.ledger.keys
  · refine iff_of_true (Or.inl hk) ?_
    exact ((h.ledger v).1 hk).imp_right hpast
  · have hstart : v ∉ start.ledger.keys := fun hs => hk ((h.ledger v).2 (Or.inl hs))
    simp only [hk, hstart, false_or, pending, List.mem_map, List.mem_filter]
    constructor
    · rintro ⟨f, ⟨hf, -⟩, rfl⟩
      exact ⟨f, hf, rfl⟩
    · rintro ⟨f, hf, rfl⟩
      exact ⟨f, ⟨hf, by simp [hk]⟩, rfl⟩

/-- **A later call succeeds exactly when what it repeats does nothing**, once nothing it repeats does harm. -/
theorem AsIfOnce.later_iff {past rest : List (Op A)} {final : S} (h : AsIfOnce exec files start t past rest)
    (hv : (files.map Prod.fst).Nodup)
    (hfinal : Script.all exec ((pending files start.ledger).flatMap Prod.snd) start.schema = some final)
    (hstop : ∀ a ∈ Storage.unrecorded files t, Harmless exec t.db.schema a) (now : String → ℤ) :
    LaterMigrates exec files start final now t ↔
      ∀ a ∈ Storage.unrecorded files t, Script.Idle exec t.db.schema a := by
  obtain ⟨part, hops, hpart⟩ := h.unrecorded hv
  have hsql : (pending files t.db.ledger).flatMap Prod.snd = Storage.unrecorded files t ++ statements rest := by
    rw [← statements_opsOf, hops, statements_append, hpart]
  have hrest : Script.all exec (statements rest) t.db.schema = some final := by
    rw [← statements_opsOf, ← h.split, statements_append, Script.all_append_of_some exec h.schema] at hfinal
    exact hfinal
  constructor
  · rintro ⟨versions, db, hup, -, -⟩
    cases hall : Script.all exec ((pending files t.db.ledger).flatMap Prod.snd) t.db.schema with
    | none =>
      have hnone := @migrateEach_of_not_all _ _ exec now _ _ hall
      rw [migrateUp] at hup
      rw [hup] at hnone
      cases hnone
    | some s =>
      rw [hsql] at hall
      exact Script.idle_of_all_append exec hstop hall
  · intro hidle
    have hall : Script.all exec ((pending files t.db.ledger).flatMap Prod.snd) t.db.schema = some final := by
      rw [hsql, Script.all_append_of_idle exec _ hidle, hrest]
    obtain ⟨ledger, heach, hkeys⟩ := @migrateEach_of_all _ _ exec now _ _ _ hall
    exact ⟨_, _, heach, rfl, fun v => (hkeys v).trans (h.keys v)⟩

/-! ## A step -/

variable [DecidableEq R]

theorem placed_turn {past rest : List (Op A)} (h : ∀ r ops, t.runs r = some ops → Placed past rest ops) (r : R)
    {todo : Option (List (Op A))} (htodo : ∀ ops, todo = some ops → Placed past rest ops) :
    ∀ r' ops, (t.turn r todo).runs r' = some ops → Placed past rest ops := by
  intro r' ops hr'
  by_cases he : r' = r
  · subst he
    rw [Migrating.runs_turn_self] at hr'
    exact htodo ops hr'
  · rw [Migrating.runs_turn, Function.update_of_ne he] at hr'
    exact h r' ops hr'

theorem AsIfOnce.turn {past rest : List (Op A)} (h : AsIfOnce exec files start t past rest) (r : R)
    {todo : Option (List (Op A))} (htodo : ∀ ops, todo = some ops → Placed past rest ops) :
    AsIfOnce exec files start (t.turn r todo) past rest :=
  ⟨h.split, h.left, h.schema, h.ledger, placed_turn h.runs r htodo⟩

/-- **A run behind the furthest** executes what was executed already, and nothing changes. -/
theorem AsIfOnce.behind {past rest again : List (Op A)} {op : Op A} {now : ℤ} {db : Db S}
    (h : AsIfOnce exec files start t past rest) (hpast : op :: again <:+ past)
    (hharmless : ∀ a, op = .run a → Harmless exec t.db.schema a) (hexec : op.exec exec now t.db = some db) (r : R) :
    AsIfOnce exec files start (t.advance r db (again ++ rest)) past rest := by
  have hsame : db = t.db := by
    cases op with
    | run a =>
      rcases hharmless a rfl with hnone | hidle
      · rw [Op.exec, hnone] at hexec
        cases hexec
      · rw [Op.exec, hidle] at hexec
        cases hexec
        rfl
    | record v =>
      have hrec : v ∈ recorded past := by
        obtain ⟨before, rfl⟩ := hpast
        simp
      rw [Op.exec, insertOrIgnore, if_pos ((h.ledger v).2 (Or.inr hrec))] at hexec
      cases hexec
      rfl
  subst hsame
  have hplaced : Placed past rest (again ++ rest) := ⟨again, rfl, (List.suffix_cons op again).trans hpast⟩
  refine ⟨h.split, ?_, h.schema, h.ledger, placed_turn h.runs r (fun ops ho => by cases ho; exact hplaced)⟩
  show min t.left (again ++ rest).length = rest.length
  rw [h.left, List.length_append]
  omega

theorem Placed.further {past rest ops : List (Op A)} {op : Op A} (h : Placed past (op :: rest) ops) :
    Placed (past ++ [op]) rest ops := by
  obtain ⟨again, rfl, before, rfl⟩ := h
  exact ⟨again ++ [op], by simp, before, by simp⟩

/-- **The furthest run** goes one operation further. -/
theorem AsIfOnce.further {past rest : List (Op A)} {op : Op A} {now : ℤ} {db : Db S}
    (h : AsIfOnce exec files start t past (op :: rest)) (hexec : op.exec exec now t.db = some db) (r : R) :
    AsIfOnce exec files start (t.advance r db rest) (past ++ [op]) rest := by
  have hplaced : Placed (past ++ [op]) rest rest := ⟨[], rfl, List.nil_suffix⟩
  have hruns : ∀ r' ops, (t.turn r (some rest)).runs r' = some ops → Placed (past ++ [op]) rest ops :=
    placed_turn (fun r ops hr => (h.runs r ops hr).further) r (fun ops ho => by cases ho; exact hplaced)
  refine ⟨?_, ?_, ?_, ?_, hruns⟩
  · rw [← h.split]
    simp
  · show min t.left rest.length = rest.length
    rw [h.left, List.length_cons]
    omega
  · rw [statements_append, Script.all_append_of_some exec h.schema]
    cases op with
    | run a =>
      obtain ⟨s, hs, rfl⟩ := Option.map_eq_some_iff.1 hexec
      exact Script.all_cons_of_some exec hs []
    | record v =>
      cases hexec
      rfl
  · intro v
    cases op with
    | run a =>
      obtain ⟨s, -, rfl⟩ := Option.map_eq_some_iff.1 hexec
      have hrec : recorded ([.run a] : List (Op A)) = [] := rfl
      rw [recorded_append, hrec, List.append_nil]
      exact h.ledger v
    | record w =>
      cases hexec
      show v ∈ (insertOrIgnore t.db.ledger w now).keys ↔ _
      simp only [mem_keys_insertOrIgnore, h.ledger, recorded_append, recorded_record, recorded_nil, List.mem_append,
        List.mem_singleton, or_assoc]

/-- **One step**, if what it repeats is harmless. -/
theorem asIfOnce_step (hv : (files.map Prod.fst).Nodup) {l : Label R} {past rest : List (Op A)}
    (h : AsIfOnce exec files start t past rest) (hrep : RepeatsHarmless exec t l t')
    (hstep : (migrating exec files).step t l = some t') :
    ∃ past' rest', AsIfOnce exec files start t' past' rest' := by
  change migrateStep exec files t l = some t' at hstep
  cases l with
  | begin r =>
    cases hstep
    obtain ⟨part, hops, hpart, -⟩ := h.ops hv
    exact ⟨past, rest, h.turn r (fun ops ho => by cases ho; exact ⟨part, hops, hpart⟩)⟩
  | next r now =>
    rw [migrateStep] at hstep
    split at hstep
    · rename_i op ops hrun
      cases hexec : op.exec exec now t.db with
      | none =>
        rw [hexec] at hstep
        cases hstep
        exact ⟨past, rest, h.turn r (fun ops ho => by cases ho)⟩
      | some db =>
        rw [hexec] at hstep
        cases hstep
        obtain ⟨again, hops, hagain⟩ := h.runs r _ hrun
        cases again with
        | nil =>
          rw [List.nil_append] at hops
          subst hops
          exact ⟨past ++ [op], ops, h.further hexec r⟩
        | cons op' again =>
          obtain ⟨rfl, rfl⟩ := List.cons.inj hops
          refine ⟨past, rest, h.behind hagain (fun a ha => ?_) hexec r⟩
          subst ha
          have hle : rest.length ≤ (again ++ rest).length := by
            rw [List.length_append]
            exact Nat.le_add_left _ _
          exact hrep a _ hrun (h.left ▸ hle)
    · cases hstep

theorem asIfOnce_of_run (hv : (files.map Prod.fst).Nodup) {ls : List (Label R)}
    (hrep : (migrating exec files).Along (RepeatsHarmless exec) (untouched files start) ls)
    (hrun : (migrating exec files).run (untouched files start) ls = some t) :
    ∃ past rest, AsIfOnce exec files start t past rest := by
  refine (migrating exec files).inv_of_along (fun t => ∃ past rest, AsIfOnce exec files start t past rest) ?_ ls
    (untouched files start) t ⟨_, _, asIfOnce_untouched⟩ hrep hrun
  rintro s l s' ⟨past, rest, h⟩ hp hstep
  exact asIfOnce_step hv h hp hstep

/-! ## The steps are `migrateUp`'s -/

theorem step_next {r : R} {op : Op A} {ops : List (Op A)} {now : ℤ} {db : Db S} (hr : t.runs r = some (op :: ops))
    (hexec : op.exec exec now t.db = some db) :
    (migrating exec files).step t (.next r now) = some (t.advance r db ops) := by
  show migrateStep exec files t (.next r now) = _
  rw [migrateStep, hr]
  dsimp only
  rw [hexec]

theorem step_raise {r : R} {op : Op A} {ops : List (Op A)} {now : ℤ} (hr : t.runs r = some (op :: ops))
    (hexec : op.exec exec now t.db = none) :
    (migrating exec files).step t (.next r now) = some (t.turn r none) := by
  show migrateStep exec files t (.next r now) = _
  rw [migrateStep, hr]
  dsimp only
  rw [hexec]

@[simp] theorem runs_advance (t : Migrating R A S) (r : R) (db : Db S) (ops : List (Op A)) :
    (t.advance r db ops).runs r = some ops :=
  t.runs_turn_self r (some ops)

@[simp] theorem db_advance (t : Migrating R A S) (r : R) (db : Db S) (ops : List (Op A)) :
    (t.advance r db ops).db = db := rfl

theorem run_script {r : R} {later : List (Op A)} : ∀ {sql : List A} {t : Migrating R A S} {b : Bool} {s : S},
    t.runs r = some (sql.map Op.run ++ later) → Script.run exec sql t.db.schema = (b, s) →
      ∃ ls t', (migrating exec files).run t ls = some t' ∧ t'.db = { t.db with schema := s } ∧
        t'.runs r = if b then some later else none
  | [], t, b, s, hr, h => by
    cases h
    exact ⟨[], t, rfl, rfl, hr⟩
  | a :: sql, t, b, s, hr, h => by
    rw [Script.run] at h
    cases ha : exec a t.db.schema with
    | none =>
      rw [ha] at h
      cases h
      have hexec : (Op.run a).exec exec 0 t.db = none := by rw [Op.exec, ha]; rfl
      refine ⟨[.next r 0], t.turn r none, ?_, rfl, t.runs_turn_self r none⟩
      exact (migrating exec files).run_cons_eq_some.2 ⟨_, step_raise hr hexec, rfl⟩
    | some s' =>
      rw [ha] at h
      have hexec : (Op.run a).exec exec 0 t.db = some { t.db with schema := s' } := by rw [Op.exec, ha]; rfl
      obtain ⟨ls, t', hrun, hdb, hruns⟩ := run_script (runs_advance t r { t.db with schema := s' } _) h
      exact ⟨.next r 0 :: ls, t', (migrating exec files).run_cons_eq_some.2 ⟨_, step_next hr hexec, hrun⟩, hdb, hruns⟩

theorem run_each {r : R} {now : String → ℤ} : ∀ {todo : List (String × List A)} {t : Migrating R A S}
    {out : Option (List String)} {db : Db S},
    t.runs r = some (opsOf todo) → migrateEach exec now todo t.db = (out, db) →
      ∃ ls t', (migrating exec files).run t ls = some t' ∧ t'.db = db ∧ t'.runs r = out.map (fun _ => [])
  | [], t, out, db, hr, h => by
    cases h
    exact ⟨[], t, rfl, rfl, hr⟩
  | (version, sql) :: todo, t, out, db, hr, h => by
    rw [opsOf_cons, List.append_assoc] at hr
    rcases hsql : Script.run exec sql t.db.schema with ⟨b, s⟩
    obtain ⟨ls, t', hrun, hdb, hruns⟩ := @run_script _ _ _ exec files _ r _ sql t b s hr hsql
    rw [migrateEach, hsql] at h
    cases b with
    | false =>
      cases h
      exact ⟨ls, t', hrun, hdb, hruns⟩
    | true =>
      rw [if_pos rfl] at hruns
      have hexec : (Op.record version : Op A).exec exec (now version) t'.db =
          some { schema := s, ledger := insertOrIgnore t.db.ledger version (now version) } := by
        rw [Op.exec, hdb]
      rcases heach : migrateEach exec now todo
        { schema := s, ledger := insertOrIgnore t.db.ledger version (now version) } with ⟨out', db'⟩
      dsimp only at h
      rw [heach] at h
      cases h
      obtain ⟨ms, u, hrun', hdb', hruns'⟩ := run_each (runs_advance t' r _ _) heach
      refine ⟨ls ++ .next r (now version) :: ms, u, ?_, hdb', ?_⟩
      · rw [(migrating exec files).run_append hrun]
        exact (migrating exec files).run_cons_eq_some.2 ⟨_, step_next hruns hexec, hrun'⟩
      · rw [hruns', Option.map_map]
        rfl

/-- **A call that runs alone** leaves what `migrateUp` leaves: it returns or raises as that does. -/
theorem run_alone (t : Migrating R A S) (r : R) (now : String → ℤ) :
    ∃ ls t', (migrating exec files).run t (.begin r :: ls) = some t' ∧
      t'.db = (migrateUp exec files now t.db).2 ∧
      t'.runs r = (migrateUp exec files now t.db).1.map (fun _ => []) := by
  obtain ⟨ls, t', hrun, hdb, hruns⟩ := @run_each _ _ _ exec files _ r now (pending files t.db.ledger)
    (t.turn r (some (opsOf (pending files t.db.ledger)))) _ _
    (t.runs_turn_self r _) rfl
  exact ⟨ls, t', (migrating exec files).run_cons_eq_some.2 ⟨_, rfl, hrun⟩, hdb, hruns⟩

end Runs

/-! ## The shipped files -/

/-- Nothing a run of the files can repeat does harm. -/
def Repeatable (exec : A → S → Option S) (files : List (String × List A)) (start : Db S) : Prop :=
  ∀ n s, Script.all exec (statements ((opsOf (pending files start.ledger)).take n)) start.schema = some s →
    ∀ a ∈ statements ((opsOf (pending files start.ledger)).take n), Harmless exec s a

theorem AsIfOnce.take {exec : A → S → Option S} {files : List (String × List A)} {start : Db S} {t : Migrating R A S}
    {past rest : List (Op A)} (h : AsIfOnce exec files start t past rest) :
    (opsOf (pending files start.ledger)).take past.length = past := by
  rw [← h.split, List.take_left]

theorem mem_statements {ops : List (Op A)} {a : A} : a ∈ statements ops ↔ Op.run a ∈ ops := by
  rw [statements, List.mem_filterMap]
  constructor
  · rintro ⟨op, hop, ha⟩
    cases op with
    | run b =>
      cases ha
      exact hop
    | record v => cases ha
  · exact fun h => ⟨.run a, h, rfl⟩

/-- **Over such files no step of any run does harm.** -/
theorem along_of_repeatable [DecidableEq R] {exec : A → S → Option S} {files : List (String × List A)} {start : Db S}
    (hv : (files.map Prod.fst).Nodup) (h : Repeatable exec files start) (ls : List (Label R)) :
    (migrating exec files).Along (RepeatsHarmless exec) (untouched files start) ls := by
  refine (migrating exec files).along_of_inv (fun t => ∃ past rest, AsIfOnce exec files start t past rest) ?_ ls
    (untouched files start) ⟨_, _, asIfOnce_untouched⟩
  rintro s l s' ⟨past, rest, hs⟩ hstep
  have hrep : RepeatsHarmless exec s l s' := by
    cases l with
    | begin r => trivial
    | next r now =>
      intro a ops hr hle
      obtain ⟨again, hops, hagain⟩ := hs.runs r _ hr
      have hmem : a ∈ statements past := by
        cases again with
        | nil =>
          rw [hs.left, ← List.nil_append rest, ← hops, List.length_cons] at hle
          omega
        | cons op again =>
          obtain ⟨rfl, -⟩ := List.cons.inj hops
          exact mem_statements.2 (hagain.subset List.mem_cons_self)
      have hschema := hs.schema
      rw [← hs.take] at hschema hmem
      exact h _ _ hschema a hmem
  exact ⟨hrep, asIfOnce_step hv hs hrep hstep⟩

/-- Nothing in the database yet. -/
def newDb : Db Ddl.Schema := ⟨.empty, .empty⟩

def shippedOps : List (Op Ddl.Stmt) := opsOf migrationFiles

/-- The schema after the first `n` operations. -/
def shippedSchema (n : ℕ) : Ddl.Schema := (Script.all Ddl.exec (statements (shippedOps.take n)) .empty).getD .empty

/-- The statements a call repeats after the first `n` operations. -/
def shippedAgain (n : ℕ) : List Ddl.Stmt :=
  let ops := opsOf (migrationFiles.filter (fun f => !(recorded (shippedOps.take n)).contains f.1))
  statements (ops.take (ops.length - (6 - n)))

theorem repeatable_shipped : Repeatable Ddl.exec migrationFiles newDb := by
  have hcuts : ∀ n < 7, ∀ a ∈ statements (shippedOps.take n),
      Ddl.exec a (shippedSchema n) = none ∨ Ddl.exec a (shippedSchema n) = some (shippedSchema n) := by decide +kernel
  intro n s hs a ha
  change Script.all Ddl.exec (statements (shippedOps.take n)) .empty = some s at hs
  change a ∈ statements (shippedOps.take n) at ha
  have hmin : shippedOps.take n = shippedOps.take (min n 6) := by
    rw [← List.take_take]
    exact congrArg _ (List.take_of_length_le (Nat.le_refl 6)).symm
  have hschema : shippedSchema (min n 6) = s := by rw [shippedSchema, ← hmin, hs]; rfl
  rw [← hschema]
  exact hcuts (min n 6) (by omega) a (hmin ▸ ha)

/-- **The shipped files**: however the calls so far were cut and interleaved, a later one succeeds exactly when `0002` is in
the ledger or its first column is not there. -/
theorem shipped_laterMigrates_iff [DecidableEq R] {ls : List (Label R)} {t : Migrating R Ddl.Stmt Ddl.Schema}
    (hrun : (migrating Ddl.exec migrationFiles).run (untouched migrationFiles newDb) ls = some t) (now : String → ℤ) :
    LaterMigrates Ddl.exec migrationFiles newDb (shippedSchema 6) now t ↔
      "0002" ∈ t.db.ledger.keys ∨ ¬ t.db.schema.HasColumn "checkpoints" "worktree_head" := by
  have hv : (migrationFiles.map Prod.fst).Nodup := by decide
  have hfinal : Script.all Ddl.exec ((pending migrationFiles newDb.ledger).flatMap Prod.snd) newDb.schema =
      some (shippedSchema 6) := by decide +kernel
  have hcuts : ∀ n < 7, (∀ a ∈ shippedAgain n, Ddl.exec a (shippedSchema n) = some (shippedSchema n)) ↔
      "0002" ∈ recorded (shippedOps.take n) ∨ ¬ (shippedSchema n).HasColumn "checkpoints" "worktree_head" := by
    decide +kernel
  have hharmless : ∀ n < 7, ∀ a ∈ shippedAgain n,
      Ddl.exec a (shippedSchema n) = none ∨ Ddl.exec a (shippedSchema n) = some (shippedSchema n) := by decide +kernel
  obtain ⟨past, rest, h⟩ := asIfOnce_of_run hv (along_of_repeatable hv repeatable_shipped ls) hrun
  have hpast : shippedOps.take past.length = past := h.take
  have hlength : past.length + rest.length = 6 := by
    rw [← List.length_append, h.split]
    rfl
  have hschema : t.db.schema = shippedSchema past.length := by
    rw [shippedSchema, hpast]
    exact (congrArg (fun o => o.getD .empty) h.schema).symm
  have hledger : ∀ v, v ∈ t.db.ledger.keys ↔ v ∈ recorded (shippedOps.take past.length) := by
    intro v
    rw [hpast, h.ledger]
    exact or_iff_right List.not_mem_nil
  have hagain : unrecorded migrationFiles t = shippedAgain past.length := by
    have hpending : pending migrationFiles t.db.ledger =
        migrationFiles.filter (fun f => !(recorded (shippedOps.take past.length)).contains f.1) := by
      refine List.filter_congr (fun f _ => ?_)
      rw [Bool.eq_iff_iff]
      simp [hledger]
    have hleft : t.left = 6 - past.length := by
      rw [h.left]
      omega
    rw [unrecorded, hpending, hleft]
    rfl
  have hlt : past.length < 7 := by omega
  have hstop : ∀ a ∈ unrecorded migrationFiles t, Harmless Ddl.exec t.db.schema a := by
    rw [hagain, hschema]
    exact hharmless past.length hlt
  rw [h.later_iff hv hfinal hstop now, hagain, hledger, hschema]
  exact hcuts past.length hlt

/-- **`migrate_up` over interrupted and concurrent runs**: when repeated statements are refused or do nothing, a later call
succeeds exactly if every statement executed of a migration without a ledger row does nothing. -/
theorem laterMigrates_iff [DecidableEq R] {exec : A → S → Option S} {files : List (String × List A)} {start : Db S}
    {final : S} (hv : (files.map Prod.fst).Nodup)
    (hfinal : Script.all exec ((pending files start.ledger).flatMap Prod.snd) start.schema = some final)
    {ls : List (Label R)} {t : Migrating R A S}
    (hrun : (migrating exec files).run (untouched files start) ls = some t)
    (hrep : (migrating exec files).Along (RepeatsHarmless exec) (untouched files start) ls)
    (hstop : ∀ a ∈ unrecorded files t, Harmless exec t.db.schema a) (now : String → ℤ) :
    LaterMigrates exec files start final now t ↔ ∀ a ∈ unrecorded files t, Script.Idle exec t.db.schema a := by
  obtain ⟨past, rest, h⟩ := asIfOnce_of_run hv hrep hrun
  exact h.later_iff hv hfinal hstop now

/-- Two runs take the first file's statements in turns, the second is cut off, and a third call goes on. -/
theorem laterMigrates_in_turns :
    ∃ t, (migrating Ddl.exec migrationFiles).run (untouched migrationFiles newDb : Migrating Bool _ _)
        [.begin false, .begin true, .next false 7, .next true 7, .next false 7, .next true 8] = some t ∧
      LaterMigrates Ddl.exec migrationFiles newDb (shippedSchema 6) (fun _ => 9) t := by
  have hend : ((migrating Ddl.exec migrationFiles).run (untouched migrationFiles newDb : Migrating Bool _ _)
      [.begin false, .begin true, .next false 7, .next true 7, .next false 7, .next true 8]).map
      (fun t => decide (∀ a ∈ unrecorded migrationFiles t, Ddl.exec a t.db.schema = some t.db.schema)) = some true := by
    decide +kernel
  obtain ⟨t, hrun, hidle⟩ := Option.map_eq_some_iff.1 hend
  have hidle' := of_decide_eq_true hidle
  have hv : (migrationFiles.map Prod.fst).Nodup := by decide
  refine ⟨t, hrun, (laterMigrates_iff hv (by decide +kernel) hrun (along_of_repeatable hv repeatable_shipped _)
    (fun a ha => Or.inr (hidle' a ha)) _).2 hidle'⟩

/-- A run cut off after the first column of `0002`: every later call is refused at that statement. -/
theorem cut_after_first_column :
    ∃ t, (migrating Ddl.exec migrationFiles).run (untouched migrationFiles newDb : Migrating Unit _ _)
        [.begin (), .next () 7, .next () 7, .next () 7, .next () 7] = some t ∧
      ∀ now, ¬ LaterMigrates Ddl.exec migrationFiles newDb (shippedSchema 6) now t := by
  have hend : ((migrating Ddl.exec migrationFiles).run (untouched migrationFiles newDb : Migrating Unit _ _)
      [.begin (), .next () 7, .next () 7, .next () 7, .next () 7]).map
      (fun t => decide ("0002" ∉ t.db.ledger.keys ∧ t.db.schema.HasColumn "checkpoints" "worktree_head")) =
        some true := by
    decide +kernel
  obtain ⟨t, hrun, hcut⟩ := Option.map_eq_some_iff.1 hend
  obtain ⟨hledger, hcolumn⟩ := of_decide_eq_true hcut
  refine ⟨t, hrun, fun now h => ?_⟩
  rcases (shipped_laterMigrates_iff hrun now).1 h with hin | hmissing
  · exact hledger hin
  · exact hmissing hcolumn

end Storage
end DevHarness
