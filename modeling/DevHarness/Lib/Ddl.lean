import DevHarness.Lib.Script
import Mathlib.Data.Finset.Basic
import Mathlib.Data.Finset.Image
/-!
# Ddl — the statements that shape an SQLite schema

A schema is a set of tables and a set of indexes, no name twice in either, every index on columns its table has.  A
statement is refused (`none`) or gives the next schema.  Names are folded to lower case; a column added is nullable.
-/
namespace Lib
namespace Ddl

structure Column where
  name : String
  decl : String
  key : Bool := false
  deriving DecidableEq

structure Table where
  name : String
  columns : List Column
  nodup : (columns.map Column.name).Nodup
  nonempty : columns ≠ []
  deriving DecidableEq

structure Index where
  name : String
  table : String
  columns : List String
  deriving DecidableEq

namespace Table

def names (t : Table) : List String := t.columns.map Column.name

def add (c : Column) (t : Table) : Table :=
  if h : c.name ∈ t.names then t
  else
    { name := t.name
      columns := t.columns ++ [c]
      nodup := by
        rw [List.map_append, List.map_singleton]
        exact t.nodup.append (List.nodup_singleton _) (List.disjoint_singleton.2 h)
      nonempty := List.append_ne_nil_of_right_ne_nil _ (List.cons_ne_nil c []) }

/-- A table's only column stays. -/
def drop (c : String) (t : Table) : Table :=
  if h : ∃ x ∈ t.columns, x.name ≠ c then
    { name := t.name
      columns := t.columns.filter (fun x => x.name ≠ c)
      nodup := t.nodup.sublist (List.filter_sublist.map Column.name)
      nonempty := by
        obtain ⟨x, hx, hne⟩ := h
        exact List.ne_nil_of_mem (List.mem_filter.2 ⟨hx, decide_eq_true hne⟩) }
  else t

@[simp] theorem name_add (c : Column) (t : Table) : (t.add c).name = t.name := by
  unfold add
  split <;> rfl

@[simp] theorem name_drop (c : String) (t : Table) : (t.drop c).name = t.name := by
  unfold drop
  split <;> rfl

theorem columns_add {c : Column} {t : Table} (h : c.name ∉ t.names) : (t.add c).columns = t.columns ++ [c] := by
  rw [add, dif_neg h]

theorem columns_drop {c : String} {t : Table} (h : ∃ x ∈ t.columns, x.name ≠ c) :
    (t.drop c).columns = t.columns.filter (fun x => x.name ≠ c) := by
  rw [drop, dif_pos h]

@[ext] theorem ext {t u : Table} (hname : t.name = u.name) (hcols : t.columns = u.columns) : t = u := by
  obtain ⟨n, cs, h1, h2⟩ := t
  obtain ⟨m, ds, h3, h4⟩ := u
  dsimp only at hname hcols
  subst hname hcols
  rfl

theorem filter_columns_of_not_mem {c : String} {t : Table} (h : c ∉ t.names) :
    t.columns.filter (fun x => x.name ≠ c) = t.columns := by
  rw [List.filter_eq_self]
  intro x hx
  refine decide_eq_true (fun he => h ?_)
  rw [← he]
  exact List.mem_map_of_mem hx

theorem exists_column_ne {c : String} {t : Table} (h : c ∉ t.names) : ∃ x ∈ t.columns, x.name ≠ c := by
  obtain ⟨x, hx⟩ := List.exists_mem_of_ne_nil t.columns t.nonempty
  refine ⟨x, hx, fun he => h ?_⟩
  rw [← he]
  exact List.mem_map_of_mem hx

/-- **A column added and dropped.** -/
theorem drop_add {c : Column} {t : Table} (h : c.name ∉ t.names) : (t.add c).drop c.name = t := by
  have hother : ∃ x ∈ (t.add c).columns, x.name ≠ c.name := by
    obtain ⟨x, hx, hne⟩ := exists_column_ne h
    rw [columns_add h]
    exact ⟨x, List.mem_append_left _ hx, hne⟩
  apply ext
  · rw [name_drop, name_add]
  · rw [columns_drop hother, columns_add h, List.filter_append, filter_columns_of_not_mem h]
    simp

theorem names_add {c : Column} {t : Table} (h : c.name ∉ t.names) : (t.add c).names = t.names ++ [c.name] := by
  rw [names, columns_add h, List.map_append]
  rfl

/-- Dropped from under a later column. -/
theorem drop_add_add {c d : Column} {t : Table} (hc : c.name ∉ t.names) (hd : d.name ∉ (t.add c).names) :
    ((t.add c).add d).drop c.name = t.add d := by
  have hdt : d.name ∉ t.names := by
    rw [names_add hc, List.mem_append, not_or] at hd
    exact hd.1
  have hne : d.name ≠ c.name := by
    intro he
    rw [names_add hc] at hd
    exact hd (by rw [he]; exact List.mem_append_right _ (List.mem_singleton_self _))
  apply ext
  · rw [name_drop, name_add, name_add, name_add]
  · rw [columns_drop ⟨d, by rw [columns_add hd]; exact List.mem_append_right _ (List.mem_singleton_self d), hne⟩,
      columns_add hd, columns_add hc, columns_add hdt, List.filter_append, List.filter_append,
      filter_columns_of_not_mem hc]
    simp [hne]

end Table

@[ext] structure Schema where
  tables : Finset Table
  indexes : Finset Index
  tableName : ∀ t ∈ tables, ∀ u ∈ tables, t.name = u.name → t = u
  indexName : ∀ i ∈ indexes, ∀ j ∈ indexes, i.name = j.name → i = j
  placed : ∀ i ∈ indexes, ∃ t ∈ tables, t.name = i.table ∧ ∀ c ∈ i.columns, c ∈ t.names
  deriving DecidableEq

namespace Schema

def empty : Schema := ⟨∅, ∅, by simp, by simp, by simp⟩

def HasTable (s : Schema) (name : String) : Prop := ∃ t ∈ s.tables, t.name = name

def HasIndex (s : Schema) (name : String) : Prop := ∃ i ∈ s.indexes, i.name = name

/-- The table of the name has the column. -/
def HasColumn (s : Schema) (table column : String) : Prop := ∃ t ∈ s.tables, t.name = table ∧ column ∈ t.names

/-- An index of the table uses the column. -/
def Indexed (s : Schema) (table column : String) : Prop := ∃ i ∈ s.indexes, i.table = table ∧ column ∈ i.columns

instance (s : Schema) (name : String) : Decidable (s.HasTable name) :=
  inferInstanceAs (Decidable (∃ t ∈ s.tables, t.name = name))

instance (s : Schema) (name : String) : Decidable (s.HasIndex name) :=
  inferInstanceAs (Decidable (∃ i ∈ s.indexes, i.name = name))

instance (s : Schema) (table column : String) : Decidable (s.HasColumn table column) :=
  inferInstanceAs (Decidable (∃ t ∈ s.tables, t.name = table ∧ column ∈ t.names))

instance (s : Schema) (table column : String) : Decidable (s.Indexed table column) :=
  inferInstanceAs (Decidable (∃ i ∈ s.indexes, i.table = table ∧ column ∈ i.columns))

def addTable (s : Schema) (t : Table) (h : ¬ s.HasTable t.name) : Schema where
  tables := insert t s.tables
  indexes := s.indexes
  tableName := by
    intro a ha b hb hab
    rcases Finset.mem_insert.1 ha with rfl | ha'
    · rcases Finset.mem_insert.1 hb with rfl | hb'
      · rfl
      · exact absurd ⟨b, hb', hab.symm⟩ h
    · rcases Finset.mem_insert.1 hb with rfl | hb'
      · exact absurd ⟨a, ha', hab⟩ h
      · exact s.tableName a ha' b hb' hab
  indexName := s.indexName
  placed := by
    intro i hi
    obtain ⟨u, hu, hname, hcols⟩ := s.placed i hi
    exact ⟨u, Finset.mem_insert_of_mem hu, hname, hcols⟩

def addIndex (s : Schema) (i : Index) (hnew : ¬ s.HasIndex i.name) (hplaced : ∀ c ∈ i.columns, s.HasColumn i.table c)
    (htable : s.HasTable i.table) : Schema where
  tables := s.tables
  indexes := insert i s.indexes
  tableName := s.tableName
  indexName := by
    intro a ha b hb hab
    rcases Finset.mem_insert.1 ha with rfl | ha'
    · rcases Finset.mem_insert.1 hb with rfl | hb'
      · rfl
      · exact absurd ⟨b, hb', hab.symm⟩ hnew
    · rcases Finset.mem_insert.1 hb with rfl | hb'
      · exact absurd ⟨a, ha', hab⟩ hnew
      · exact s.indexName a ha' b hb' hab
  placed := by
    intro j hj
    rcases Finset.mem_insert.1 hj with rfl | hj'
    · obtain ⟨t, ht, hname⟩ := htable
      refine ⟨t, ht, hname, fun c hc => ?_⟩
      obtain ⟨u, hu, huname, hcu⟩ := hplaced c hc
      rw [s.tableName t ht u hu (hname.trans huname.symm)]
      exact hcu
    · exact s.placed j hj'

/-- A change to one table that keeps its name and the columns its indexes use. -/
def alter (s : Schema) (name : String) (f : Table → Table) (hname : ∀ t, (f t).name = t.name)
    (hkeep : ∀ t ∈ s.tables, t.name = name → ∀ c, s.Indexed name c → c ∈ t.names → c ∈ (f t).names) : Schema where
  tables := s.tables.image (fun t => if t.name = name then f t else t)
  indexes := s.indexes
  tableName := by
    intro a ha b hb hab
    obtain ⟨t, ht, rfl⟩ := Finset.mem_image.1 ha
    obtain ⟨u, hu, rfl⟩ := Finset.mem_image.1 hb
    have hsame : ∀ x : Table, (if x.name = name then f x else x).name = x.name := by
      intro x
      split
      · exact hname x
      · rfl
    rw [hsame, hsame] at hab
    rw [s.tableName t ht u hu hab]
  indexName := s.indexName
  placed := by
    intro i hi
    obtain ⟨t, ht, htable, hcols⟩ := s.placed i hi
    refine ⟨_, Finset.mem_image_of_mem _ ht, ?_⟩
    by_cases h : t.name = name
    · rw [if_pos h]
      exact ⟨(hname t).trans htable, fun c hc => hkeep t ht h c ⟨i, hi, htable.symm.trans h, hc⟩ (hcols c hc)⟩
    · rw [if_neg h]
      exact ⟨htable, hcols⟩

/-- A table goes with its indexes. -/
def eraseTable (s : Schema) (name : String) : Schema where
  tables := s.tables.filter (fun t => t.name ≠ name)
  indexes := s.indexes.filter (fun i => i.table ≠ name)
  tableName := fun t ht u hu => s.tableName t (Finset.mem_filter.1 ht).1 u (Finset.mem_filter.1 hu).1
  indexName := fun i hi j hj => s.indexName i (Finset.mem_filter.1 hi).1 j (Finset.mem_filter.1 hj).1
  placed := by
    intro i hi
    obtain ⟨hi, hne⟩ := Finset.mem_filter.1 hi
    obtain ⟨t, ht, htable, hcols⟩ := s.placed i hi
    exact ⟨t, Finset.mem_filter.2 ⟨ht, by rw [htable]; exact hne⟩, htable, hcols⟩

/-- The column exists, is no key, is not the only one, and no index uses it. -/
def Droppable (s : Schema) (table column : String) : Prop :=
  (∃ t ∈ s.tables, t.name = table ∧ (∃ x ∈ t.columns, x.name = column ∧ x.key = false) ∧
    ∃ x ∈ t.columns, x.name ≠ column) ∧ ¬ s.Indexed table column

instance (s : Schema) (table column : String) : Decidable (s.Droppable table column) :=
  inferInstanceAs (Decidable (_ ∧ ¬ _))

theorem mem_names_add {s : Schema} {name : String} (c : Column) :
    ∀ t ∈ s.tables, t.name = name → ∀ x, s.Indexed name x → x ∈ t.names → x ∈ (t.add c).names := by
  intro t _ _ x _ hx
  by_cases h : c.name ∈ t.names
  · rw [Table.add, dif_pos h]
    exact hx
  · rw [Table.names_add h]
    exact List.mem_append_left _ hx

theorem mem_names_drop {s : Schema} {name column : String} (hi : ¬ s.Indexed name column) :
    ∀ t ∈ s.tables, t.name = name → ∀ x, s.Indexed name x → x ∈ t.names → x ∈ (t.drop column).names := by
  intro t _ _ x hx hmem
  have hne : x ≠ column := fun he => hi (he ▸ hx)
  obtain ⟨y, hy, rfl⟩ := List.mem_map.1 hmem
  have hother : ∃ z ∈ t.columns, z.name ≠ column := ⟨y, hy, hne⟩
  rw [Table.names, Table.columns_drop hother]
  exact List.mem_map_of_mem (List.mem_filter.2 ⟨hy, decide_eq_true hne⟩)

def addColumn (s : Schema) (name : String) (c : Column) : Schema :=
  s.alter name (Table.add c) (Table.name_add c) (mem_names_add c)

def dropColumn (s : Schema) (name column : String) (h : s.Droppable name column) : Schema :=
  s.alter name (Table.drop column) (Table.name_drop column) (mem_names_drop h.2)

theorem tables_alter (s : Schema) (name : String) (f : Table → Table) (hname : ∀ t, (f t).name = t.name)
    (hkeep : ∀ t ∈ s.tables, t.name = name → ∀ c, s.Indexed name c → c ∈ t.names → c ∈ (f t).names) :
    (s.alter name f hname hkeep).tables = s.tables.image (fun t => if t.name = name then f t else t) := rfl

end Schema

inductive Stmt
  | createTable (table : Table) (ifNotExists : Bool)
  | createIndex (index : Index) (ifNotExists : Bool)
  | addColumn (table : String) (column : Column)
  | dropColumn (table column : String)
  | dropTable (name : String) (ifExists : Bool)

/-- Tables and indexes share their names; `IF NOT EXISTS` only excuses an object of the same kind. -/
def exec : Stmt → Schema → Option Schema
  | .createTable t ifNotExists, s =>
    if h : s.HasTable t.name then if ifNotExists then some s else none
    else if s.HasIndex t.name then none
    else some (s.addTable t h)
  | .createIndex i ifNotExists, s =>
    if ht : s.HasTable i.table then
      if s.HasTable i.name then none
      else if h : s.HasIndex i.name then if ifNotExists then some s else none
      else if hc : ∀ c ∈ i.columns, s.HasColumn i.table c then some (s.addIndex i h hc ht)
      else none
    else none
  | .addColumn name c, s =>
    if s.HasTable name ∧ ¬ s.HasColumn name c.name ∧ c.key = false then some (s.addColumn name c) else none
  | .dropColumn name c, s => if h : s.Droppable name c then some (s.dropColumn name c h) else none
  | .dropTable name ifExists, s =>
    if s.HasTable name then some (s.eraseTable name) else if ifExists then some s else none

/-! ## What each statement did, given that it went through -/

theorem exec_addColumn_iff {name : String} {c : Column} {s s' : Schema} :
    exec (.addColumn name c) s = some s' ↔
      (s.HasTable name ∧ ¬ s.HasColumn name c.name ∧ c.key = false) ∧ s.addColumn name c = s' := by
  rw [exec]
  split <;> rename_i h <;> simp [h]

theorem exec_dropColumn_of {name c : String} {s : Schema} (h : s.Droppable name c) :
    exec (.dropColumn name c) s = some (s.dropColumn name c h) := by
  rw [exec, dif_pos h]

/-- The one table of the name, and that it lacks the column. -/
theorem not_mem_names {name c : String} {s : Schema} (h : ¬ s.HasColumn name c) {t : Table} (ht : t ∈ s.tables)
    (hname : t.name = name) : c ∉ t.names :=
  fun hc => h ⟨t, ht, hname, hc⟩

theorem not_indexed {name c : String} {s : Schema} (h : ¬ s.HasColumn name c) : ¬ s.Indexed name c := by
  rintro ⟨i, hi, htable, hc⟩
  obtain ⟨t, ht, hname, hcols⟩ := s.placed i hi
  exact h ⟨t, ht, hname.trans htable, hcols c hc⟩

theorem mem_tables_addColumn {name : String} {c : Column} {s : Schema} {t : Table} (ht : t ∈ s.tables)
    (hname : t.name = name) : t.add c ∈ (s.addColumn name c).tables := by
  refine Finset.mem_image.2 ⟨t, ht, ?_⟩
  rw [if_pos hname]

theorem droppable_addColumn {name : String} {c : Column} {s : Schema} (htable : s.HasTable name)
    (hnew : ¬ s.HasColumn name c.name) (hkey : c.key = false) : (s.addColumn name c).Droppable name c.name := by
  obtain ⟨t, ht, hname⟩ := htable
  have hc := not_mem_names hnew ht hname
  have hindexed : ¬ s.Indexed name c.name := not_indexed hnew
  obtain ⟨x, hx, hne⟩ := Table.exists_column_ne hc
  refine ⟨⟨t.add c, mem_tables_addColumn ht hname, (Table.name_add c t).trans hname, ?_, ?_⟩, hindexed⟩
  · exact ⟨c, by rw [Table.columns_add hc]; exact List.mem_append_right _ (List.mem_singleton_self c), rfl, hkey⟩
  · exact ⟨x, by rw [Table.columns_add hc]; exact List.mem_append_left _ hx, hne⟩

/-- **`DROP COLUMN` undoes `ADD COLUMN`.** -/
theorem exec_dropColumn_addColumn {name : String} {c : Column} {s s' : Schema}
    (h : exec (.addColumn name c) s = some s') : exec (.dropColumn name c.name) s' = some s := by
  obtain ⟨⟨htable, hnew, hkey⟩, rfl⟩ := exec_addColumn_iff.1 h
  rw [exec_dropColumn_of (droppable_addColumn htable hnew hkey)]
  refine congrArg some (Schema.ext ?_ rfl)
  rw [Schema.dropColumn, Schema.tables_alter, Schema.addColumn, Schema.tables_alter, Finset.image_image]
  refine (Finset.image_congr (fun t ht => ?_)).trans Finset.image_id
  rw [Function.comp_apply]
  by_cases hname : t.name = name
  · rw [if_pos hname, if_pos ((Table.name_add c t).trans hname), Table.drop_add (not_mem_names hnew ht hname)]
    rfl
  · rw [if_neg hname, if_neg hname]
    rfl

/-- **Dropped from under a column added later**: as if that one alone had been added. -/
theorem exec_dropColumn_addColumn_addColumn {name : String} {c d : Column} {s s' s'' : Schema}
    (hc : exec (.addColumn name c) s = some s') (hd : exec (.addColumn name d) s' = some s'') :
    ∃ u, exec (.dropColumn name c.name) s'' = some u ∧ exec (.addColumn name d) s = some u := by
  obtain ⟨⟨htable, hnew, hkey⟩, rfl⟩ := exec_addColumn_iff.1 hc
  obtain ⟨⟨htable', hnew', hkey'⟩, rfl⟩ := exec_addColumn_iff.1 hd
  have hd' : ∀ t ∈ s.tables, t.name = name → d.name ∉ (t.add c).names := fun t ht hname =>
    not_mem_names hnew' (mem_tables_addColumn ht hname) ((Table.name_add c t).trans hname)
  have hdnew : ¬ s.HasColumn name d.name := by
    rintro ⟨t, ht, hname, hmem⟩
    refine hd' t ht hname ?_
    rw [Table.names_add (not_mem_names hnew ht hname)]
    exact List.mem_append_left _ hmem
  have hdrop : ((s.addColumn name c).addColumn name d).Droppable name c.name := by
    obtain ⟨t, ht, hname⟩ := htable
    have hct := not_mem_names hnew ht hname
    have hindexed : ¬ s.Indexed name c.name := not_indexed hnew
    obtain ⟨x, hx, hne⟩ := Table.exists_column_ne hct
    refine ⟨⟨(t.add c).add d, mem_tables_addColumn (mem_tables_addColumn ht hname) (by simp [hname]), by simp [hname],
      ⟨c, ?_, rfl, hkey⟩, ⟨x, ?_, hne⟩⟩, hindexed⟩
    · rw [Table.columns_add (hd' t ht hname), Table.columns_add hct]
      simp
    · rw [Table.columns_add (hd' t ht hname), Table.columns_add hct]
      simp [hx]
  refine ⟨s.addColumn name d, ?_, exec_addColumn_iff.2 ⟨⟨htable, hdnew, hkey'⟩, rfl⟩⟩
  rw [exec_dropColumn_of hdrop]
  refine congrArg some (Schema.ext ?_ rfl)
  rw [Schema.dropColumn, Schema.tables_alter, Schema.addColumn, Schema.tables_alter, Schema.addColumn,
    Schema.tables_alter, Schema.addColumn, Schema.tables_alter, Finset.image_image, Finset.image_image]
  refine Finset.image_congr (fun t ht => ?_)
  rw [Function.comp_apply, Function.comp_apply]
  by_cases hname : t.name = name
  · have hname' : (t.add c).name = name := (Table.name_add c t).trans hname
    rw [if_pos hname, if_pos hname', if_pos ((Table.name_add d _).trans hname'), if_pos hname,
      Table.drop_add_add (not_mem_names hnew ht hname) (hd' t ht hname)]
  · rw [if_neg hname, if_neg hname, if_neg hname]

theorem exec_dropTable_of {name : String} {ifExists : Bool} {s : Schema} (h : s.HasTable name) :
    exec (.dropTable name ifExists) s = some (s.eraseTable name) := by
  rw [exec, if_pos h]

theorem exec_dropTable_ifExists (name : String) (s : Schema) :
    ∃ s', exec (.dropTable name true) s = some s' ∧ ¬ s'.HasTable name := by
  by_cases h : s.HasTable name
  · refine ⟨s.eraseTable name, exec_dropTable_of h, ?_⟩
    rintro ⟨t, ht, hname⟩
    exact (Finset.mem_filter.1 ht).2 hname
  · refine ⟨s, ?_, h⟩
    rw [exec, if_neg h, if_pos rfl]

theorem hasIndex_of_createTable {t : Table} {ifNotExists : Bool} {s s' : Schema}
    (h : exec (.createTable t ifNotExists) s = some s') (name : String) : s'.HasIndex name ↔ s.HasIndex name := by
  rw [exec] at h
  split at h
  · split at h <;> cases h
    rfl
  · split at h <;> cases h
    rfl

/-- **`DROP TABLE` undoes `CREATE TABLE`.** -/
theorem exec_dropTable_createTable {t : Table} {ifNotExists : Bool} {s s' : Schema}
    (hnew : ¬ s.HasTable t.name) (h : exec (.createTable t ifNotExists) s = some s') (ifExists : Bool) :
    exec (.dropTable t.name ifExists) s' = some s := by
  rw [exec, dif_neg hnew] at h
  split at h
  · cases h
  · cases h
    rw [exec_dropTable_of ⟨t, Finset.mem_insert_self _ _, rfl⟩]
    refine congrArg some (Schema.ext ?_ ?_)
    · show (insert t s.tables).filter (fun u => u.name ≠ t.name) = s.tables
      rw [Finset.filter_insert, if_neg (fun hn => hn rfl), Finset.filter_true_of_mem]
      exact fun u hu he => hnew ⟨u, hu, he⟩
    · show s.indexes.filter (fun i => i.table ≠ t.name) = s.indexes
      rw [Finset.filter_true_of_mem]
      intro i hi he
      obtain ⟨u, hu, htable, -⟩ := s.placed i hi
      exact hnew ⟨u, hu, htable.trans he⟩

/-- `DROP TABLE` takes an index of the table along. -/
theorem exec_dropTable_createIndex {i : Index} {ifNotExists : Bool} {s s' : Schema}
    (h : exec (.createIndex i ifNotExists) s = some s') (hnew : ¬ s.HasIndex i.name) (ifExists : Bool) :
    exec (.dropTable i.table ifExists) s' = exec (.dropTable i.table ifExists) s := by
  rw [exec] at h
  split at h
  · rename_i htable
    split at h
    · cases h
    · split at h
      · cases h
        rw [exec_dropTable_of htable, @exec_dropTable_of i.table ifExists (s.addIndex i _ _ _) htable]
        refine congrArg some (Schema.ext rfl ?_)
        show (insert i s.indexes).filter (fun j => j.table ≠ i.table) = s.indexes.filter (fun j => j.table ≠ i.table)
        rw [Finset.filter_insert, if_neg (fun hn => hn rfl)]
      · cases h
  · cases h

end Ddl
end Lib
