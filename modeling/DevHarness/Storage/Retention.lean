import DevHarness.Storage.WriteOrder
import DevHarness.Lib.Count
/-!
# Retention — what pruning leaves of a scope (`storage/retention.py`)

The probe asks for the id of the row at offset `keep` among the unsealed; without one nothing is deleted.  Ranks are by
`(created_at, checkpoint_id)`, and within a scope no two rows share one.
-/
namespace DevHarness
namespace Storage

open Lib

variable {τ : Type}

theorem mem_unsealed_inScope {t : Table τ} {scope : Scope} {r : Row τ} :
    r ∈ unsealed (t.inScope scope) ↔ r ∈ t.rows ∧ r.scope = scope ∧ r.isPaused = false := by
  rw [unsealed, List.mem_filter, Table.mem_inScope, Bool.not_eq_true', and_assoc]

variable [LinearOrder τ]

/-- What `ORDER BY created_at DESC, checkpoint_id DESC` compares. -/
def Row.stamp (r : Row τ) : ℤ ×ₗ τ := toLex (r.createdAt, r.checkpointId)

/-- How many unsealed rows of the scope are greater. -/
def rank (t : Table τ) (scope : Scope) (r : Row τ) : ℕ :=
  (unsealed (t.inScope scope)).countP (fun x => decide (r.stamp < x.stamp))

theorem Row.newer_iff (a b : Row τ) : a.Newer b ↔ b.stamp ≤ a.stamp := by
  rw [Row.Newer, Row.stamp, Row.stamp, Prod.Lex.toLex_le_toLex]

theorem mem_prunable {t : Table τ} {scope : Scope} {r : Row τ} :
    r ∈ prunable t scope ↔ r ∈ t.rows ∧ r.scope = scope ∧ r.isPaused = false := by
  rw [prunable_eq, mem_newestFirst, mem_unsealed_inScope]

/-- No two rows of a scope compare as equal: they are listed strictly downwards. -/
theorem pairwise_stamp_prunable (t : Table τ) (scope : Scope) :
    (prunable t scope).Pairwise (fun a b => b.stamp < a.stamp) := by
  have hids : ((prunable t scope).map Row.checkpointId).Nodup := by
    rw [prunable_eq]
    refine ((List.perm_insertionSort Row.Newer _).map Row.checkpointId).nodup_iff.2 ?_
    exact (nodup_ids_inScope t scope).sublist (List.filter_sublist.map _)
  rw [List.Nodup, List.pairwise_map] at hids
  refine ((pairwise_newestFirst _).and hids).imp ?_
  rintro a b ⟨hab, hne⟩
  refine lt_of_le_of_ne ((Row.newer_iff a b).1 hab) (fun he => hne ?_)
  exact (congrArg (fun p => (ofLex p).2) he).symm

theorem countP_prunable (t : Table τ) (scope : Scope) (r : Row τ) :
    (prunable t scope).countP (fun x => decide (r.stamp < x.stamp)) = rank t scope r := by
  rw [prunable_eq, rank]
  exact (List.perm_insertionSort Row.Newer _).countP_eq _

theorem mem_take_prunable {t : Table τ} {scope : Scope} {keep : ℕ} {r : Row τ} :
    r ∈ (prunable t scope).take keep ↔ (r ∈ t.rows ∧ r.scope = scope ∧ r.isPaused = false) ∧ rank t scope r < keep := by
  rw [mem_take_iff_countP_lt Row.stamp _ _ (pairwise_stamp_prunable t scope), mem_prunable, countP_prunable]

/-- **The delete's condition, by rank**: unsealed rows of the scope with `keep` greater ones. -/
theorem beyond_eq_true_iff {t : Table τ} {scope : Scope} {keep : ℕ} {r : Row τ} (hr : r ∈ t.rows) :
    beyond t scope keep r = true ↔ r.scope = scope ∧ r.isPaused = false ∧ keep ≤ rank t scope r := by
  have hkept : r.scope = scope → r.isPaused = false →
      (r.checkpointId ∈ ((prunable t scope).take keep).map (·.checkpointId) ↔ rank t scope r < keep) := by
    intro hs hp
    constructor
    · intro h
      obtain ⟨x, hx, hid⟩ := List.mem_map.1 h
      obtain ⟨⟨hxt, hxs, -⟩, hlt⟩ := mem_take_prunable.1 hx
      have hxr : x = r := Table.eq_of_key hxt hr (by rw [Row.key, Row.key, hxs, hs, hid])
      exact hxr ▸ hlt
    · intro h
      exact List.mem_map_of_mem (mem_take_prunable.2 ⟨⟨hr, hs, hp⟩, h⟩)
  unfold beyond
  by_cases hs : r.scope = scope
  · cases hp : r.isPaused with
    | true => simp
    | false =>
      have h := hkept hs hp
      rw [← not_lt, ← h]
      simp [hs]
  · simp [hs]

/-- A probe that finds no row has nothing to delete. -/
theorem not_beyond_of_probe {t : Table τ} {scope : Scope} {keep : ℕ} (h : (prunable t scope)[keep]? = none) {r : Row τ}
    (hr : r ∈ t.rows) : beyond t scope keep r = false := by
  rw [← Bool.not_eq_true, beyond_eq_true_iff hr]
  rintro ⟨hs, hp, hle⟩
  rw [List.getElem?_eq_none_iff] at h
  have hmem : r ∈ (prunable t scope).take keep := by
    rw [List.take_of_length_le h]
    exact mem_prunable.2 ⟨hr, hs, hp⟩
  exact absurd (mem_take_prunable.1 hmem).2 (not_lt.2 hle)

/-- A delete with nothing beyond. -/
theorem delete_of_probe {t : Table τ} {scope : Scope} {keep : ℕ} (h : (prunable t scope)[keep]? = none) :
    t.rows.countP (beyond t scope keep) = 0 ∧ t.delete (beyond t scope keep) = t := by
  have hno : ∀ r ∈ t.rows, beyond t scope keep r = false := fun r hr => not_beyond_of_probe h hr
  refine ⟨List.countP_eq_zero.2 (fun r hr => ?_), Table.delete_eq_self hno⟩
  rw [hno r hr]
  exact Bool.false_ne_true

/-- The row the probe finds has `keep` greater ones. -/
theorem rank_of_probe {t : Table τ} {scope : Scope} {keep : ℕ} {r : Row τ} (h : (prunable t scope)[keep]? = some r) :
    rank t scope r = keep := by
  obtain ⟨hlt, rfl⟩ := List.getElem?_eq_some_iff.1 h
  have hsorted := pairwise_stamp_prunable t scope
  have hin : (prunable t scope)[keep] ∈ (prunable t scope).take (keep + 1) := by
    rw [List.take_succ_eq_append_getElem hlt]
    exact List.mem_append_right _ List.mem_cons_self
  have hout : (prunable t scope)[keep] ∉ (prunable t scope).take keep := by
    intro hmem
    obtain ⟨i, hi, he⟩ := List.mem_take_iff_getElem.1 hmem
    have hik := List.pairwise_iff_getElem.1 hsorted i keep (by omega) hlt (by omega)
    rw [he] at hik
    exact lt_irrefl _ hik
  have hmem := mem_prunable.1 (List.getElem_mem hlt)
  have hle := (mem_take_prunable.1 hin).2
  have hge := not_lt.1 fun hrank => hout (mem_take_prunable.2 ⟨hmem, hrank⟩)
  omega

variable [TextCell τ]

/-- The id of the unsealed row with `keep` greater ones, if there is one, is UTF-8. -/
def ProbeReadable (t : Table τ) (scope : Scope) (keep : ℕ) : Prop :=
  ∀ r ∈ t.inScope scope, r.isPaused = false → rank t scope r = keep → TextCell.decode r.checkpointId ≠ none

theorem probeReadable_text (t : Table) (scope : Scope) (keep : ℕ) : ProbeReadable t scope keep :=
  fun _ _ _ _ => Option.some_ne_none _

theorem RetentionPolicy.prune_of_overflow {policy : RetentionPolicy} (h : ¬ policy.keep < 2 ^ 63) (t : Table τ)
    (scope : Scope) : policy.prune t scope = none :=
  if_pos (not_lt.1 h)

/-- **Prune by rank**: the probe only saves the delete the trouble. -/
theorem RetentionPolicy.prune_of_probe {policy : RetentionPolicy} {t : Table τ} {scope : Scope}
    (hfits : policy.keep < 2 ^ 63) (hprobe : ProbeReadable t scope policy.keep) :
    policy.prune t scope =
      some (t.rows.countP (beyond t scope policy.keep), t.delete (beyond t scope policy.keep)) := by
  unfold RetentionPolicy.prune
  rw [if_neg (not_le.2 hfits)]
  cases h : (prunable t scope)[policy.keep]? with
  | none =>
    obtain ⟨hcount, hsame⟩ := delete_of_probe h
    rw [hcount, hsame]
  | some r =>
    obtain ⟨hr, hs, hp⟩ := mem_prunable.1 (List.mem_of_getElem? h)
    have hread := hprobe r (Table.mem_inScope.2 ⟨hr, hs⟩) hp (rank_of_probe h)
    obtain ⟨cid, hid⟩ := Option.ne_none_iff_exists'.1 hread
    dsimp only
    rw [hid, Option.map_some]

theorem RetentionPolicy.eq_of_prune {policy : RetentionPolicy} {t t' : Table τ} {scope : Scope} {n : ℕ}
    (h : policy.prune t scope = some (n, t')) :
    n = t.rows.countP (beyond t scope policy.keep) ∧ t' = t.delete (beyond t scope policy.keep) := by
  obtain ⟨-, ⟨hnone, rfl, rfl⟩ | ⟨-, -, -, rfl, rfl⟩⟩ := RetentionPolicy.prune_cases h
  · obtain ⟨hcount, hsame⟩ := delete_of_probe hnone
    exact ⟨hcount.symm, hsame.symm⟩
  · exact ⟨rfl, rfl⟩

/-! ## The surviving rows -/

section

variable {policy : RetentionPolicy} {t t' : Table τ} {scope : Scope} {n : ℕ}

theorem mem_prune_iff (h : policy.prune t scope = some (n, t')) (r : Row τ) :
    r ∈ t'.inScope scope ↔ r ∈ t.inScope scope ∧ (r.isPaused = true ∨ rank t scope r < policy.keep) := by
  obtain ⟨-, rfl⟩ := RetentionPolicy.eq_of_prune h
  rw [Table.mem_inScope, Table.mem_delete, Table.mem_inScope]
  constructor
  · rintro ⟨⟨hr, hkept⟩, hs⟩
    refine ⟨⟨hr, hs⟩, ?_⟩
    rw [← Bool.not_eq_true, beyond_eq_true_iff hr] at hkept
    by_contra hn
    rw [not_or, Bool.not_eq_true, not_lt] at hn
    exact hkept ⟨hs, hn.1, hn.2⟩
  · rintro ⟨⟨hr, hs⟩, hkept⟩
    refine ⟨⟨hr, ?_⟩, hs⟩
    rw [← Bool.not_eq_true, beyond_eq_true_iff hr]
    rintro ⟨-, hp, hle⟩
    rcases hkept with h | h
    · rw [hp] at h
      cases h
    · exact absurd h (not_lt.2 hle)

theorem inScope_prune_of_ne (h : policy.prune t scope = some (n, t')) {other : Scope} (hne : other ≠ scope) :
    t'.inScope other = t.inScope other := by
  obtain ⟨-, rfl⟩ := RetentionPolicy.eq_of_prune h
  unfold Table.inScope Table.delete
  rw [List.filter_filter]
  refine List.filter_congr (fun r _ => ?_)
  by_cases hs : r.scope = other
  · simp [hs, hne, beyond]
  · simp [hs]

theorem length_prune (h : policy.prune t scope = some (n, t')) : t'.rows.length + n = t.rows.length := by
  obtain ⟨rfl, rfl⟩ := RetentionPolicy.eq_of_prune h
  have hsplit := List.length_eq_countP_add_countP (beyond t scope policy.keep) (l := t.rows)
  simp only [Table.delete, ← List.countP_eq_length_filter, decide_not, Bool.decide_eq_true] at hsplit ⊢
  omega

/-- The quota is used up: as many unsealed rows stay as there are, up to `keep`. -/
theorem length_unsealed_prune (h : policy.prune t scope = some (n, t')) :
    (unsealed (t'.inScope scope)).length = min policy.keep (unsealed (t.inScope scope)).length := by
  have hnodup : (t.inScope scope).Nodup := (nodup_ids_inScope t scope).of_map _
  have hleft : (unsealed (t'.inScope scope)).Nodup := ((nodup_ids_inScope _ scope).of_map _).sublist List.filter_sublist
  have hright : ((prunable t scope).take policy.keep).Nodup := by
    refine List.Nodup.sublist (List.take_sublist _ _) ?_
    rw [prunable_eq]
    exact (List.perm_insertionSort Row.Newer _).nodup_iff.2 (hnodup.sublist List.filter_sublist)
  have hperm : (unsealed (t'.inScope scope)).Perm ((prunable t scope).take policy.keep) := by
    refine (List.perm_ext_iff_of_nodup hleft hright).2 (fun r => ?_)
    rw [unsealed, List.mem_filter, mem_prune_iff h, mem_take_prunable, Table.mem_inScope, Bool.not_eq_true']
    constructor
    · rintro ⟨⟨⟨hr, hs⟩, hkept⟩, hp⟩
      refine ⟨⟨hr, hs, hp⟩, hkept.resolve_left ?_⟩
      rw [hp]
      exact Bool.false_ne_true
    · rintro ⟨⟨hr, hs, hp⟩, hlt⟩
      exact ⟨⟨⟨hr, hs⟩, Or.inr hlt⟩, hp⟩
  rw [hperm.length_eq, List.length_take, prunable_eq, length_newestFirst]

theorem rank_prune_le (h : policy.prune t scope = some (n, t')) (r : Row τ) : rank t' scope r ≤ rank t scope r := by
  obtain ⟨-, rfl⟩ := RetentionPolicy.eq_of_prune h
  refine List.Sublist.countP_le ?_
  exact (List.filter_sublist.filter _).filter _

/-- **A second prune finds nothing.** -/
theorem prune_prune (h : policy.prune t scope = some (n, t')) : policy.prune t' scope = some (0, t') := by
  have hlt : ∀ r ∈ t'.inScope scope, r.isPaused = false → rank t' scope r < policy.keep := by
    intro r hr hp
    rcases ((mem_prune_iff h r).1 hr).2 with hseal | hlt
    · rw [hp] at hseal
      cases hseal
    · exact lt_of_le_of_lt (rank_prune_le h r) hlt
  have hnone : (prunable t' scope)[policy.keep]? = none := by
    cases hp : (prunable t' scope)[policy.keep]? with
    | none => rfl
    | some r =>
      obtain ⟨hr, hs, hpaused⟩ := mem_prunable.1 (List.mem_of_getElem? hp)
      exact absurd (rank_of_probe hp) (ne_of_lt (hlt r (Table.mem_inScope.2 ⟨hr, hs⟩) hpaused))
  unfold RetentionPolicy.prune
  rw [if_neg (not_le.2 (RetentionPolicy.prune_cases h).1), hnone]

end

/-- **What pruning leaves**: of the scope, the seals and the `keep` greatest unsealed rows stay; the other scopes are as
they were, the result counts the rows removed, and a second prune removes none. -/
def Prunes (policy : RetentionPolicy) (t : Table τ) (scope : Scope) (out : Option (ℕ × Table τ)) : Prop :=
  ∃ n t', out = some (n, t') ∧
    (∀ r, r ∈ t'.inScope scope ↔ r ∈ t.inScope scope ∧ (r.isPaused = true ∨ rank t scope r < policy.keep)) ∧
    (unsealed (t'.inScope scope)).length = min policy.keep (unsealed (t.inScope scope)).length ∧
    (∀ other, other ≠ scope → t'.inScope other = t.inScope other) ∧
    t'.rows.length + n = t.rows.length ∧ policy.prune t' scope = some (0, t')

/-- **Retention**, for every `keep` that SQLite's integers hold, where the id the probe finds can be read. -/
theorem prune_spec (policy : RetentionPolicy) (hfits : policy.keep < 2 ^ 63) (t : Table τ) (scope : Scope)
    (hprobe : ProbeReadable t scope policy.keep) : Prunes policy t scope (policy.prune t scope) := by
  have hpruned := RetentionPolicy.prune_of_probe hfits hprobe
  exact ⟨_, _, hpruned, mem_prune_iff hpruned, length_unsealed_prune hpruned, fun _ h => inScope_prune_of_ne hpruned h,
    length_prune hpruned, prune_prune hpruned⟩

/-- Twelve rows of a scope, one of them a seal. -/
def twelveRows : Table :=
  ⟨(List.range 12).map (fun i => putRow id ⟨"p", "t"⟩ (cpId i) ⟨dumpedState "a", none, decide (i = 3), none, none, none⟩),
    by decide +kernel⟩

theorem prune_five : Prunes ⟨5⟩ twelveRows ⟨"p", "t"⟩ (RetentionPolicy.prune ⟨5⟩ twelveRows ⟨"p", "t"⟩) :=
  prune_spec ⟨5⟩ (by decide) twelveRows ⟨"p", "t"⟩ (probeReadable_text _ _ _)

/-- One row, under an id with a byte that is not UTF-8. -/
def garbledId : Table StoredText :=
  ⟨[⟨⟨"p", "t"⟩, .garbled [0xff], .utf8 (dumpedState "a"), .utf8 (dumpedState "a"), none, false, 0, none, none⟩],
    by decide +kernel⟩

/-- **What a prune raises on**: a `keep` of `2 ^ 63` cannot be bound to the `OFFSET`, and an id that is not UTF-8 cannot be
read by the probe. -/
theorem not_prunes_raised :
    ¬ Prunes ⟨2 ^ 63⟩ twelveRows ⟨"p", "t"⟩ (RetentionPolicy.prune ⟨2 ^ 63⟩ twelveRows ⟨"p", "t"⟩) ∧
    ¬ Prunes ⟨0⟩ garbledId ⟨"p", "t"⟩ (RetentionPolicy.prune ⟨0⟩ garbledId ⟨"p", "t"⟩) := by
  constructor
  · rintro ⟨n, t', hout, -⟩
    rw [RetentionPolicy.prune_of_overflow (lt_irrefl _)] at hout
    cases hout
  · rintro ⟨n, t', hout, -⟩
    have hraised : RetentionPolicy.prune ⟨0⟩ garbledId ⟨"p", "t"⟩ = none := by decide +kernel
    rw [hraised] at hout
    cases hout

end Storage
end DevHarness
