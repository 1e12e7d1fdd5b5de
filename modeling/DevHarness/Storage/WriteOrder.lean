import DevHarness.Storage.Saver
import DevHarness.Lib.Text
import Mathlib.Data.List.Induction
/-!
# WriteOrder — listings and the order of writing (`storage/sqlite_saver.py`, `cli.py`, `retention.py`)

Puts that name no time all carry the time 0, so a listing orders them by id, and ids are compared as text: `cp_10` comes
before `cp_9`.  A scope is listed in the order it was written for ten puts and no further.
-/
namespace DevHarness
namespace Storage

open Lib

structure Write where
  scope : Scope
  args : PutArgs
  checkpointId : Option String

/-- One put of a history; a put that raises is rolled back. -/
def Table.write (sha256 : String → String) (t : Table) (w : Write) : Table :=
  (put sha256 t w.scope w.args w.checkpointId).getD t

def written (sha256 : String → String) (history : List Write) : Table :=
  history.foldl (Table.write sha256) Table.empty

/-- Nothing put into the scope brings a time or an id of its own. -/
def Unstamped (scope : Scope) (history : List Write) : Prop :=
  ∀ w ∈ history, w.scope = scope → w.args.createdAt = none ∧ w.checkpointId = none

/-- `storage.cli get`: the state of the first row of a listing of one; `none` is "no checkpoints". -/
def cmdGet (t : Table) (scope : Scope) : Option String := (list t scope 1 0).head?.map (·.stateJson)

variable {τ : Type}

def unsealed (rows : List (Row τ)) : List (Row τ) := rows.filter (fun r => !r.isPaused)

/-- **The listing is the order of writing, backwards**, for its readers too: the state served last is the last written,
and pruning keeps the last written. -/
def NewestFirst (t : Table) (scope : Scope) : Prop :=
  list t scope 100 0 = (t.inScope scope).reverse ∧
    cmdGet t scope = (t.inScope scope).getLast?.map (·.stateJson) ∧
    ∀ (policy : RetentionPolicy) (n : ℕ) (t' : Table), policy.prune t scope = some (n, t') →
      unsealed (t'.inScope scope) = (unsealed (t.inScope scope)).drop ((unsealed (t.inScope scope)).length - policy.keep)

/-! ## The ids a scope is given -/

/-- The id of a put that finds `n` rows listed. -/
def cpId (n : ℕ) : String := "cp_" ++ toString n

theorem cpId_inj {m n : ℕ} (h : cpId m = cpId n) : m = n := Lib.numbered_injective "cp_" h

theorem cpId_le : ∀ j < 10, ∀ i < j, cpId i ≤ cpId j := by decide +kernel

theorem not_cpId_nine_le : ¬ cpId 9 ≤ cpId 10 := by decide +kernel

/-- Times and ids of a scope, in the order of writing. -/
def stamps (t : Table) (scope : Scope) : List (ℤ × String) :=
  (t.inScope scope).map (fun r => (r.createdAt, r.checkpointId))

theorem length_list (t : Table) (scope : Scope) (limit : ℕ) :
    (list t scope limit 0).length = min limit (t.inScope scope).length := by
  rw [list, List.drop_zero, List.length_take, length_newestFirst]

theorem inScope_insert {t t' : Table} {r : Row} (h : t.insert r = some t') (scope : Scope) :
    t'.inScope scope = t.inScope scope ++ if r.scope = scope then [r] else [] := by
  have hrows := (Table.insert_eq_some_iff.1 h).2
  unfold Table.inScope
  rw [hrows, List.filter_append]
  by_cases hs : r.scope = scope <;> simp [hs]

theorem inScope_write_of_ne (sha256 : String → String) (t : Table) {w : Write} {scope : Scope} (h : w.scope ≠ scope) :
    (t.write sha256 w).inScope scope = t.inScope scope := by
  unfold Table.write
  cases hp : put sha256 t w.scope w.args w.checkpointId with
  | none => rfl
  | some t' =>
    rw [put_eq] at hp
    have hin := inScope_insert (insertPut_eq_some_iff.1 hp).2 scope
    rw [if_neg (by exact h), List.append_nil] at hin
    exact hin

/-- Of a scope numbered from nothing, the ids taken are those below the count. -/
theorem key_mem_iff {t : Table} {scope : Scope} {m : ℕ}
    (hm : stamps t scope = (List.range m).map (fun i => (0, cpId i))) (n : ℕ) :
    (scope, cpId n) ∈ t.rows.map Row.key ↔ n < m := by
  constructor
  · intro h
    obtain ⟨r, hr, hkey⟩ := List.mem_map.1 h
    obtain ⟨hscope, hid⟩ := Prod.mk.inj hkey
    have hstamp : (r.createdAt, r.checkpointId) ∈ stamps t scope := List.mem_map.2 ⟨r, Table.mem_inScope.2 ⟨hr, hscope⟩, rfl⟩
    rw [hm] at hstamp
    obtain ⟨i, hi, he⟩ := List.mem_map.1 hstamp
    have hin : i = n := cpId_inj ((Prod.mk.inj he).2.trans hid)
    exact hin ▸ List.mem_range.1 hi
  · intro h
    have hstamp : ((0 : ℤ), cpId n) ∈ stamps t scope := by
      rw [hm]
      exact List.mem_map.2 ⟨n, List.mem_range.2 h, rfl⟩
    obtain ⟨r, hr, he⟩ := List.mem_map.1 hstamp
    obtain ⟨hr, hscope⟩ := Table.mem_inScope.1 hr
    refine List.mem_map.2 ⟨r, hr, ?_⟩
    rw [Row.key, hscope, (Prod.mk.inj he).2]

/-- **One put**: it is given the next id while a listing counts all rows, and is refused from then on. -/
theorem stamps_write (sha256 : String → String) {t : Table} {w : Write} {scope : Scope} {n : ℕ}
    (hs : w.scope = scope) (ht : w.args.createdAt = none) (hid : w.checkpointId = none)
    (hn : stamps t scope = (List.range (min n 101)).map (fun i => (0, cpId i))) :
    stamps (t.write sha256 w) scope = (List.range (min (n + 1) 101)).map (fun i => (0, cpId i)) := by
  subst hs
  have hlen : (t.inScope w.scope).length = min n 101 := by
    have := congrArg List.length hn
    simpa [stamps] using this
  have hchosen : chosenId t w.scope w.checkpointId = cpId (min 100 (min n 101)) := by
    rw [hid, chosenId, defaultId, length_list, hlen]
    rfl
  have htaken : (putRow sha256 w.scope (cpId (min 100 (min n 101))) w.args : Row).key ∈ t.rows.map Row.key ↔
      min 100 (min n 101) < min n 101 := key_mem_iff hn _
  rw [Table.write, put_eq, hchosen, insertPut_of_fits (PutArgs.fits_of_none ht)]
  cases hi : t.insert (putRow sha256 w.scope (cpId (min 100 (min n 101))) w.args) with
  | none =>
    -- the id counts a hundred rows, and row a hundred has it
    have hlt := htaken.1 (Table.insert_eq_none_iff.1 hi)
    rw [Option.getD_none, hn, show min (n + 1) 101 = min n 101 by omega]
  | some t' =>
    -- the listing counts every row: the id is new
    have hnew := not_lt.1 (fun hc => (Table.insert_eq_some_iff.1 hi).1 (htaken.2 hc))
    have hmin : min 100 (min n 101) = n := by omega
    have hmin' : min n 101 = n := by omega
    have hin := inScope_insert hi w.scope
    rw [if_pos (by rfl), hmin] at hin
    rw [stamps, hmin'] at hn
    rw [Option.getD_some, stamps, hin, List.map_append, hn, show min (n + 1) 101 = n + 1 by omega, List.range_succ,
      List.map_append]
    simp [putRow, ht]

/-- **The ids of a scope after a history**: numbered from nothing, at most a hundred and one. -/
theorem stamps_written (sha256 : String → String) (scope : Scope) (history : List Write) (hu : Unstamped scope history) :
    stamps (written sha256 history) scope =
      (List.range (min (history.countP (fun w => decide (w.scope = scope))) 101)).map (fun i => (0, cpId i)) := by
  unfold written
  induction history using List.reverseRecOn with
  | nil => rfl
  | append_singleton history w ih =>
    have ih := ih (fun x hx => hu x (List.mem_append_left _ hx))
    rw [List.foldl_append, List.countP_append]
    by_cases hs : w.scope = scope
    · obtain ⟨ht, hid⟩ := hu w (by simp) hs
      simpa [hs] using stamps_write sha256 hs ht hid ih
    · have hsame : stamps (Table.write sha256 (history.foldl (Table.write sha256) Table.empty) w) scope =
          stamps (history.foldl (Table.write sha256) Table.empty) scope := by
        rw [stamps, inScope_write_of_ne sha256 _ hs]
        rfl
      rw [List.foldl_cons, List.foldl_nil, hsame, ih]
      simp [hs]

/-! ## The order of a listing -/

/-- The order of a listing, backwards, on times and ids. -/
def Older (p q : ℤ × String) : Prop := p.1 < q.1 ∨ (p.1 = q.1 ∧ p.2 ≤ q.2)

theorem pairwise_newer_reverse_iff (t : Table) (scope : Scope) :
    (t.inScope scope).reverse.Pairwise Row.Newer ↔ (stamps t scope).Pairwise Older := by
  rw [List.pairwise_reverse, stamps, List.pairwise_map]
  exact Iff.rfl

/-- **Numbered ids are in order as far as ten**: the eleventh, `cp_10`, is less than the tenth. -/
theorem pairwise_older_iff (m : ℕ) : ((List.range m).map (fun i => ((0 : ℤ), cpId i))).Pairwise Older ↔ m ≤ 10 := by
  rw [List.pairwise_map]
  constructor
  · intro h
    by_contra hm
    have hlt := List.pairwise_iff_getElem.1 h 9 10 (by rw [List.length_range]; omega) (by rw [List.length_range]; omega)
      (by omega)
    rw [List.getElem_range, List.getElem_range] at hlt
    rcases hlt with hlt | ⟨-, hle⟩
    · exact lt_irrefl _ hlt
    · exact not_cpId_nine_le hle
  · intro hm
    refine List.pairwise_lt_range.imp_of_mem ?_
    intro i j _ hj hij
    exact Or.inr ⟨rfl, cpId_le j (by have := List.mem_range.1 hj; omega) i hij⟩

theorem nodup_ids_inScope (t : Table τ) (scope : Scope) : ((t.inScope scope).map Row.checkpointId).Nodup := by
  have hkeys : ((t.inScope scope).map Row.key).Nodup := t.primaryKey.sublist (List.filter_sublist.map Row.key)
  have hmap : (t.inScope scope).map Row.key = ((t.inScope scope).map Row.checkpointId).map (fun cid => (scope, cid)) := by
    rw [List.map_map]
    refine List.map_congr_left (fun r hr => ?_)
    rw [Row.key, (Table.mem_inScope.1 hr).2]
    rfl
  rw [hmap] at hkeys
  exact hkeys.of_map _

variable [LinearOrder τ]

/-- Rows that stand backwards in order are backwards in a listing. -/
theorem newestFirst_eq_reverse {rows : List (Row τ)} (hid : (rows.map Row.checkpointId).Nodup)
    (h : rows.reverse.Pairwise Row.Newer) : newestFirst rows = rows.reverse := by
  refine List.Perm.eq_of_pairwise ?_ (pairwise_newestFirst rows) h
    ((List.perm_insertionSort Row.Newer rows).trans (List.reverse_perm rows).symm)
  intro a b ha hb hab hba
  exact List.inj_on_of_nodup_map hid (mem_newestFirst.1 ha) (List.mem_reverse.1 hb) (hab.checkpointId_eq hba)

theorem prunable_eq (t : Table τ) (scope : Scope) : prunable t scope = newestFirst (unsealed (t.inScope scope)) := by
  unfold prunable unsealed Table.inScope
  rw [List.filter_filter]
  congr 1
  exact List.filter_congr (fun r _ => Bool.and_comm _ _)

/-- Of rows with distinct ids, those that carry an id of the last of them are the last of them. -/
theorem filter_mem_drop {rows : List (Row τ)} (hid : (rows.map Row.checkpointId).Nodup) (k : ℕ) :
    rows.filter (fun r => ((rows.drop k).map Row.checkpointId).contains r.checkpointId) = rows.drop k := by
  have hsplit : rows.map Row.checkpointId = (rows.take k).map Row.checkpointId ++ (rows.drop k).map Row.checkpointId := by
    rw [← List.map_append, List.take_append_drop]
  rw [hsplit, List.nodup_append] at hid
  have hbefore : (rows.take k).filter (fun r => ((rows.drop k).map Row.checkpointId).contains r.checkpointId) = [] := by
    refine List.filter_eq_nil_iff.2 (fun r hr hc => ?_)
    exact hid.2.2 _ (List.mem_map_of_mem hr) _ (List.contains_iff_mem.1 hc) rfl
  have hafter : (rows.drop k).filter (fun r => ((rows.drop k).map Row.checkpointId).contains r.checkpointId) =
      rows.drop k := by
    refine List.filter_eq_self.2 (fun r hr => ?_)
    exact List.contains_iff_mem.2 (List.mem_map_of_mem hr)
  calc rows.filter _ = (rows.take k ++ rows.drop k).filter _ := by rw [List.take_append_drop]
    _ = rows.drop k := by rw [List.filter_append, hbefore, hafter, List.nil_append]

/-- What pruning leaves unsealed, where the unsealed rows stand backwards in order. -/
theorem unsealed_prune [TextCell τ] {policy : RetentionPolicy} {t t' : Table τ} {scope : Scope} {n : ℕ}
    (h : newestFirst (unsealed (t.inScope scope)) = (unsealed (t.inScope scope)).reverse)
    (hpruned : policy.prune t scope = some (n, t')) :
    unsealed (t'.inScope scope) =
      (unsealed (t.inScope scope)).drop ((unsealed (t.inScope scope)).length - policy.keep) := by
  have hprunable : prunable t scope = (unsealed (t.inScope scope)).reverse := (prunable_eq t scope).trans h
  have hid : ((unsealed (t.inScope scope)).map Row.checkpointId).Nodup :=
    (nodup_ids_inScope t scope).sublist (List.filter_sublist.map _)
  obtain ⟨-, ⟨hnone, -, rfl⟩ | ⟨-, -, -, -, rfl⟩⟩ := RetentionPolicy.prune_cases hpruned
  · rw [hprunable, List.getElem?_eq_none_iff, List.length_reverse] at hnone
    rw [Nat.sub_eq_zero_of_le hnone, List.drop_zero]
  · -- the rows kept of those unsealed are those with the ids of the first `keep` backwards
    conv_rhs => rw [← filter_mem_drop hid]
    unfold unsealed Table.inScope Table.delete beyond
    rw [hprunable, List.take_reverse, List.map_reverse]
    rw [List.filter_filter, List.filter_filter, List.filter_filter, List.filter_filter]
    refine List.filter_congr (fun r _ => ?_)
    by_cases hs : r.scope = scope <;> cases hp : r.isPaused <;> simp [hs, unsealed, Table.inScope]

/-- **Ten puts and no further**: a scope whose puts leave time and id to the saver is listed, served and pruned in the
order it was written exactly while it has had at most ten. -/
theorem newestFirst_iff (sha256 : String → String) (scope : Scope) (history : List Write)
    (hu : Unstamped scope history) :
    NewestFirst (written sha256 history) scope ↔ history.countP (fun w => decide (w.scope = scope)) ≤ 10 := by
  have hstamps := stamps_written sha256 scope history hu
  set t := written sha256 history
  have horder : (t.inScope scope).reverse.Pairwise Row.Newer ↔
      history.countP (fun w => decide (w.scope = scope)) ≤ 10 := by
    rw [pairwise_newer_reverse_iff, hstamps, pairwise_older_iff]
    omega
  rw [← horder]
  constructor
  · rintro ⟨hlist, -, -⟩
    rw [← hlist]
    exact ((pairwise_newestFirst _).sublist (List.drop_sublist _ _)).sublist (List.take_sublist _ _)
  · intro h
    have hsorted := newestFirst_eq_reverse (nodup_ids_inScope t scope) h
    have hlen : (t.inScope scope).length ≤ 100 := by
      have hl := congrArg List.length hstamps
      have hten := horder.1 h
      simp only [stamps, List.length_map, List.length_range] at hl
      omega
    refine ⟨?_, ?_, fun policy n t' hpruned => unsealed_prune ?_ hpruned⟩
    · rw [list, hsorted, List.drop_zero, List.take_of_length_le (by rw [List.length_reverse]; exact hlen)]
    · rw [cmdGet, list, hsorted, List.drop_zero, List.head?_take, if_neg one_ne_zero, List.head?_reverse]
    · refine newestFirst_eq_reverse ((nodup_ids_inScope t scope).sublist (List.filter_sublist.map _)) ?_
      exact h.sublist (List.filter_sublist.reverse)

/-- Two puts of a scope, and one elsewhere under an id of its own. -/
theorem newestFirst_two : NewestFirst (written id [⟨⟨"p", "t"⟩, ⟨dumpedState "a", none, false, none, none, none⟩, none⟩,
    ⟨⟨"p", "u"⟩, ⟨dumpedState "b", none, false, some 7, none, none⟩, some "seal"⟩,
    ⟨⟨"p", "t"⟩, ⟨dumpedState "c", none, true, none, none, none⟩, none⟩]) ⟨"p", "t"⟩ :=
  (newestFirst_iff id ⟨"p", "t"⟩ _ (by simp [Unstamped])).2 (by decide)

/-- Eleven puts, of states with the requests `0` to `10`. -/
def elevenWrites : List Write :=
  (List.range 11).map (fun i => ⟨⟨"p", "t"⟩, ⟨dumpedState (toString i), none, false, none, none, none⟩, none⟩)

/-- **After the eleventh put the tenth is served.** -/
theorem not_newestFirst_eleven : Unstamped ⟨"p", "t"⟩ elevenWrites ∧
    cmdGet (written id elevenWrites) ⟨"p", "t"⟩ = some (dumpedState "9") ∧
    ¬ NewestFirst (written id elevenWrites) ⟨"p", "t"⟩ := by
  have hget : cmdGet (written id elevenWrites) ⟨"p", "t"⟩ = some (dumpedState "9") := by decide +kernel
  refine ⟨?_, hget, fun h => ?_⟩
  · intro w hw _
    obtain ⟨i, -, rfl⟩ := List.mem_map.1 hw
    exact ⟨rfl, rfl⟩
  · have hlast : ((written id elevenWrites).inScope ⟨"p", "t"⟩).getLast?.map (·.stateJson) = some (dumpedState "10") := by
      decide +kernel
    have heq := h.2.1
    rw [hget, hlast] at heq
    revert heq
    decide

end Storage
end DevHarness
