import DevHarness.Storage.WriteOrder
import Mathlib.Data.Set.Finite.Basic
/-!
# Integrity — verified reads and the quarantine scan (`storage/integrity.py`)

Both read the scope once, newest first, and work on that listing while rows leave the table.  The listing takes in every
id, state and digest of the scope, so one that is not UTF-8 fails it for all of the scope's ids.
-/
namespace DevHarness
namespace Storage

open Lib

section

variable {τ : Type} [TextCell τ]

/-! ## Rows -/

/-- The row asked for. -/
def Requested (s : Store τ) (scope : Scope) (cid : String) (r : Row τ) : Prop :=
  r ∈ s.checkpoints.rows ∧ r.key = (scope, TextCell.text cid)

theorem Requested.unique {s : Store τ} {scope : Scope} {cid : String} {a b : Row τ} (ha : Requested s scope cid a)
    (hb : Requested s scope cid b) : a = b :=
  Table.eq_of_key ha.1 hb.1 (ha.2.trans hb.2.symm)

/-- Its own id asks for a row of the scope, where it can be read. -/
theorem exists_requested {s : Store τ} {scope : Scope} {r : Row τ} (hr : r ∈ s.checkpoints.inScope scope)
    (hread : r.readable = true) : ∃ cid, Requested s scope cid r := by
  obtain ⟨hmem, hs⟩ := Table.mem_inScope.1 hr
  rw [Row.readable, Bool.and_eq_true, Bool.and_eq_true] at hread
  obtain ⟨cid, hcid⟩ := Option.isSome_iff_exists.1 hread.1.1
  exact ⟨cid, hmem, by rw [Row.key, hs, TextCell.text_of_decode _ _ hcid]⟩

/-- There are more ids than rows. -/
theorem exists_unrequested (s : Store τ) (scope : Scope) : ∃ cid, ∀ r, ¬ Requested s scope cid r := by
  have hinj : Function.Injective (fun n => (TextCell.text (cpId n) : τ)) :=
    TextCell.text_injective.comp fun _ _ h => cpId_inj h
  obtain ⟨_, ⟨n, rfl⟩, hn⟩ := (Set.infinite_range_of_injective hinj).exists_notMem_finite
    (s.checkpoints.rows.map Row.checkpointId).finite_toSet
  refine ⟨cpId n, fun r hr => hn (List.mem_map.2 ⟨r, hr.1, ?_⟩)⟩
  exact (Prod.mk.inj hr.2).2

variable [LinearOrder τ]

theorem find?_requested {s : Store τ} {scope : Scope} {cid : String} {r : Row τ} (h : Requested s scope cid r) :
    (newestFirst (s.checkpoints.inScope scope)).find? (fun x => x.checkpointId = TextCell.text cid) = some r := by
  obtain ⟨hr, hkey⟩ := h
  obtain ⟨rfl, hid⟩ := Prod.mk.inj hkey
  rw [← hid]
  exact find?_newestFirst hr

end

variable {τ : Type} [LinearOrder τ]

/-- What a move leaves in the side table under a key. -/
theorem get?_quarantineRow (s : Store τ) (r : Row τ) (now : ℤ) (k : Scope × τ) :
    (quarantineRow s r now).quarantine.get? k =
      if k = r.key then some ⟨r.stateJson, r.stateSha256, corruptionReason, now⟩ else s.quarantine.get? k :=
  Dict.get?_set s.quarantine r.key k _

theorem nodup_keys_newestFirst (t : Table τ) (scope : Scope) : ((newestFirst (t.inScope scope)).map Row.key).Nodup := by
  refine ((List.perm_insertionSort Row.Newer _).map Row.key).nodup_iff.2 ?_
  exact t.primaryKey.sublist (List.filter_sublist.map Row.key)

/-! ## Reading and scanning -/

variable [TextCell τ]

/-- `quarantine_corrupt`, over the rows still to look at; each row moved reads the clock.  The ids are the cells they were
read from. -/
def quarantineEach (sha256 : String → String) : List (Row τ) → (ℕ → ℤ) → Store τ → List τ × Store τ
  | [], _, s => ([], s)
  | r :: rows, clock, s =>
    if verifyRow sha256 r then quarantineEach sha256 rows clock s
    else
      let rest := quarantineEach sha256 rows (fun n => clock (n + 1)) (quarantineRow s r (clock 0))
      (r.checkpointId :: rest.1, rest.2)

/-- `quarantine_corrupt`; `none` is the `OperationalError` of the listing. -/
def quarantineCorrupt (sha256 : String → String) (s : Store τ) (scope : Scope) (clock : ℕ → ℤ) :
    Option (List τ) × Store τ :=
  let rows := newestFirst (s.checkpoints.inScope scope)
  if rows.all Row.readable then
    let out := quarantineEach sha256 rows clock s
    (some out.1, out.2)
  else (none, s)

/-- Every id, state and digest of the scope is UTF-8. -/
def ScopeReadable (t : Table τ) (scope : Scope) : Prop := ∀ r ∈ t.inScope scope, r.readable = true

instance (t : Table τ) (scope : Scope) : Decidable (ScopeReadable t scope) :=
  inferInstanceAs (Decidable (∀ r ∈ t.inScope scope, _ = true))

/-- Another row of the scope that verifies. -/
def Remaining (sha256 : String → String) (s : Store τ) (scope : Scope) (cid : String) (r : Row τ) : Prop :=
  r ∈ s.checkpoints.inScope scope ∧ r.checkpointId ≠ TextCell.text cid ∧ verifyRow sha256 r = true

/-- The first of them, newest first. -/
def Fallback (sha256 : String → String) (s : Store τ) (scope : Scope) (cid : String) (r : Row τ) : Prop :=
  Remaining sha256 s scope cid r ∧ ∀ x, Remaining sha256 s scope cid x → r.Newer x

/-- The row a verified read owes: the one asked for when it verifies, else the first of the others. -/
def Due (sha256 : String → String) (s : Store τ) (scope : Scope) (cid : String) (r : Row τ) : Prop :=
  (Requested s scope cid r ∧ verifyRow sha256 r = true) ∨
    ((∃ c, Requested s scope cid c ∧ verifyRow sha256 c = false) ∧ Fallback sha256 s scope cid r)

/-- **A verified read**: what it serves, when it serves nothing, when it raises, and what it moves. -/
def ReadsVerified (sha256 : String → String) (s : Store τ) (scope : Scope) (cid : String) (now : ℤ)
    (out : Served × Store τ) : Prop :=
  (∀ r, Due sha256 s scope cid r → ∃ row, r.decode = some row ∧ out.1 = .row row) ∧
  (∀ row, out.1 = .row row → ∃ r, Due sha256 s scope cid r ∧ r.decode = some row) ∧
  (out.1 = .missing ↔ ∀ r, ¬ Requested s scope cid r) ∧
  (out.1 = .corrupt ↔ (∃ c, Requested s scope cid c ∧ verifyRow sha256 c = false) ∧
    ∀ r, ¬ Remaining sha256 s scope cid r) ∧
  ((∀ c, Requested s scope cid c → verifyRow sha256 c = true) → out.2 = s) ∧
  ∀ c, Requested s scope cid c → verifyRow sha256 c = false →
    out.2.checkpoints.rows = s.checkpoints.rows.filter (fun r => r.key ≠ (scope, TextCell.text cid)) ∧
    ∀ k, out.2.quarantine.get? k = if k = (scope, TextCell.text cid) then
      some ⟨c.stateJson, c.stateSha256, corruptionReason, now⟩ else s.quarantine.get? k

/-- **A scan**: the verifying rows are left, the ids moved are returned newest first, and the other scopes are as they
were in both tables. -/
def ScansScope (sha256 : String → String) (s : Store τ) (scope : Scope) (clock : ℕ → ℤ)
    (out : Option (List τ) × Store τ) : Prop :=
  out.2.checkpoints.rows = s.checkpoints.rows.filter (fun r => decide (r.scope ≠ scope) || verifyRow sha256 r) ∧
  out.1 = some (((newestFirst (s.checkpoints.inScope scope)).filter (fun r => !verifyRow sha256 r)).map Row.checkpointId) ∧
  (∀ r ∈ s.checkpoints.inScope scope, verifyRow sha256 r = false → ∃ n,
    out.2.quarantine.get? r.key = some ⟨r.stateJson, r.stateSha256, corruptionReason, clock n⟩) ∧
  ∀ k : Scope × τ, (∀ r ∈ s.checkpoints.inScope scope, verifyRow sha256 r = false → r.key ≠ k) →
    out.2.quarantine.get? k = s.quarantine.get? k

/-! ## The listing -/

theorem all_readable_iff {t : Table τ} {scope : Scope} :
    (newestFirst (t.inScope scope)).all Row.readable = true ↔ ScopeReadable t scope := by
  rw [List.all_eq_true, ScopeReadable]
  simp only [mem_newestFirst]

theorem getVerifiedTuple_of_unreadable {sha256 : String → String} {s : Store τ} {scope : Scope}
    (h : ¬ ScopeReadable s.checkpoints scope) (cid : String) (now : ℤ) :
    getVerifiedTuple sha256 s scope cid now = (.operationalError, s) := by
  rw [← all_readable_iff] at h
  rw [getVerifiedTuple]
  exact if_neg h

theorem quarantineCorrupt_of_unreadable {sha256 : String → String} {s : Store τ} {scope : Scope}
    (h : ¬ ScopeReadable s.checkpoints scope) (clock : ℕ → ℤ) : quarantineCorrupt sha256 s scope clock = (none, s) := by
  rw [← all_readable_iff] at h
  rw [quarantineCorrupt]
  exact if_neg h

theorem quarantineCorrupt_of_readable {sha256 : String → String} {s : Store τ} {scope : Scope}
    (h : ScopeReadable s.checkpoints scope) (clock : ℕ → ℤ) :
    quarantineCorrupt sha256 s scope clock =
      (some (quarantineEach sha256 (newestFirst (s.checkpoints.inScope scope)) clock s).1,
        (quarantineEach sha256 (newestFirst (s.checkpoints.inScope scope)) clock s).2) := by
  rw [← all_readable_iff] at h
  rw [quarantineCorrupt]
  exact if_pos h

theorem scopeReadable_text (t : Table) (scope : Scope) : ScopeReadable t scope := fun r _ => Row.readable_eq r

/-! ## A verified read -/

theorem Fallback.unique {sha256 : String → String} {s : Store τ} {scope : Scope} {cid : String} {a b : Row τ}
    (ha : Fallback sha256 s scope cid a) (hb : Fallback sha256 s scope cid b) : a = b := by
  obtain ⟨hma, hsa⟩ := Table.mem_inScope.1 ha.1.1
  obtain ⟨hmb, hsb⟩ := Table.mem_inScope.1 hb.1.1
  have hid := (ha.2 b hb.1).checkpointId_eq (hb.2 a ha.1)
  exact Table.eq_of_key hma hmb (by rw [Row.key, Row.key, hsa, hsb, hid])

theorem getVerifiedTuple_of_missing {sha256 : String → String} {s : Store τ} {scope : Scope} {cid : String}
    (hread : ScopeReadable s.checkpoints scope) (h : ∀ r, ¬ Requested s scope cid r) (now : ℤ) :
    getVerifiedTuple sha256 s scope cid now = (.missing, s) := by
  have hf : (newestFirst (s.checkpoints.inScope scope)).find? (fun x => x.checkpointId = TextCell.text cid) = none := by
    rw [List.find?_eq_none]
    intro r hr hid
    obtain ⟨hm, hs⟩ := Table.mem_inScope.1 (mem_newestFirst.1 hr)
    exact h r ⟨hm, by rw [Row.key, hs, of_decide_eq_true hid]⟩
  rw [← all_readable_iff] at hread
  simp only [getVerifiedTuple, hread, if_true, hf]

/-- **A row asked for that verifies** is read once more, whole. -/
theorem getVerifiedTuple_of_requested {sha256 : String → String} {s : Store τ} {scope : Scope} {cid : String} {c : Row τ}
    (hread : ScopeReadable s.checkpoints scope) (hc : Requested s scope cid c) (hv : verifyRow sha256 c = true) (now : ℤ) :
    getVerifiedTuple sha256 s scope cid now = (c.served, s) := by
  have hget : getTuple s.checkpoints scope (TextCell.text cid) = some c := by
    obtain ⟨hr, hkey⟩ := hc
    obtain ⟨rfl, hid⟩ := Prod.mk.inj hkey
    rw [← hid]
    exact getTuple_eq_some hr
  rw [← all_readable_iff] at hread
  simp only [getVerifiedTuple, hread, if_true, find?_requested hc, hv, servedTuple, hget]

/-- The search for a row to fall back on. -/
def findRemaining (sha256 : String → String) (s : Store τ) (scope : Scope) (cid : String) : Option (Row τ) :=
  (newestFirst (s.checkpoints.inScope scope)).find? (fun r => decide (r.checkpointId ≠ TextCell.text cid) && verifyRow sha256 r)

theorem findRemaining_eq_none_iff {sha256 : String → String} {s : Store τ} {scope : Scope} {cid : String} :
    findRemaining sha256 s scope cid = none ↔ ∀ r, ¬ Remaining sha256 s scope cid r := by
  rw [findRemaining, List.find?_eq_none]
  constructor
  · rintro h r ⟨hr, hid, hv⟩
    exact h r (mem_newestFirst.2 hr) (by simp [hid, hv])
  · intro h r hr hc
    rw [Bool.and_eq_true, decide_eq_true_eq] at hc
    exact h r ⟨mem_newestFirst.1 hr, hc.1, hc.2⟩

theorem findRemaining_eq_some {sha256 : String → String} {s : Store τ} {scope : Scope} {cid : String} {r : Row τ}
    (h : findRemaining sha256 s scope cid = some r) : Fallback sha256 s scope cid r := by
  obtain ⟨hc, before, after, hsplit, hbefore⟩ := List.find?_eq_some_iff_append.1 h
  rw [Bool.and_eq_true, decide_eq_true_eq] at hc
  have hr : r ∈ s.checkpoints.inScope scope := by
    rw [← mem_newestFirst, hsplit]
    simp
  refine ⟨⟨hr, hc.1, hc.2⟩, fun x hx => ?_⟩
  have hmem : x ∈ before ++ r :: after := hsplit ▸ mem_newestFirst.2 hx.1
  have hsorted : (before ++ r :: after).Pairwise Row.Newer := hsplit ▸ pairwise_newestFirst _
  rcases List.mem_append.1 hmem with hb | hb
  · have hno := hbefore x hb
    simp [hx.2.1, hx.2.2] at hno
  · rcases List.mem_cons.1 hb with rfl | ha
    · exact (Std.Total.total x x : x.Newer x ∨ x.Newer x).elim id id
    · exact (List.pairwise_cons.1 (List.pairwise_append.1 hsorted).2.1).1 x ha

/-- **A corrupt row asked for** is moved aside, and the search decides what is served. -/
theorem getVerifiedTuple_of_corrupt {sha256 : String → String} {s : Store τ} {scope : Scope} {cid : String} {c : Row τ}
    (hread : ScopeReadable s.checkpoints scope) (hc : Requested s scope cid c) (hv : verifyRow sha256 c = false) (now : ℤ) :
    getVerifiedTuple sha256 s scope cid now = (match findRemaining sha256 s scope cid with
      | none => .corrupt
      | some r => r.served, quarantineRow s c now) := by
  rw [← all_readable_iff] at hread
  simp only [getVerifiedTuple, hread, if_true, find?_requested hc, hv, Bool.false_eq_true, if_false]
  rw [← findRemaining]
  cases hf : findRemaining sha256 s scope cid with
  | none => rfl
  | some r =>
    obtain ⟨⟨hr, hid, -⟩, -⟩ := findRemaining_eq_some hf
    obtain ⟨hm, hs⟩ := Table.mem_inScope.1 hr
    -- the row served is still in the table after the other has left
    have hstill : r ∈ (quarantineRow s c now).checkpoints.rows := by
      refine Table.mem_delete.2 ⟨hm, decide_eq_false (fun he => hid ?_)⟩
      exact (Prod.mk.inj (he.trans hc.2)).2
    have hget := getTuple_eq_some hstill
    rw [hs] at hget
    simp only [servedTuple, hget]

/-- **What a read does to the store**: the corrupt row it asks for in a readable scope is moved, and nothing else. -/
theorem snd_getVerifiedTuple (sha256 : String → String) (s : Store τ) (scope : Scope) (cid : String) (now : ℤ) :
    (∃ c, (ScopeReadable s.checkpoints scope ∧ Requested s scope cid c ∧ verifyRow sha256 c = false) ∧
      (getVerifiedTuple sha256 s scope cid now).2 = quarantineRow s c now) ∨
    (ScopeReadable s.checkpoints scope → ∀ c, Requested s scope cid c → verifyRow sha256 c = true) ∧
      (getVerifiedTuple sha256 s scope cid now).2 = s := by
  by_cases hread : ScopeReadable s.checkpoints scope
  · by_cases hreq : ∃ c, Requested s scope cid c
    · obtain ⟨c, hc⟩ := hreq
      cases hv : verifyRow sha256 c with
      | true =>
        refine Or.inr ⟨fun _ d hd => by rw [hd.unique hc, hv], ?_⟩
        rw [getVerifiedTuple_of_requested hread hc hv]
      | false =>
        refine Or.inl ⟨c, ⟨hread, hc, hv⟩, ?_⟩
        rw [getVerifiedTuple_of_corrupt hread hc hv]
    · refine Or.inr ⟨fun _ c hc => absurd ⟨c, hc⟩ hreq, ?_⟩
      rw [getVerifiedTuple_of_missing hread (fun c hc => hreq ⟨c, hc⟩)]
  · refine Or.inr ⟨fun h => absurd h hread, ?_⟩
    rw [getVerifiedTuple_of_unreadable hread]

/-! ## The quarantine scan -/

theorem quarantineEach_fst (sha256 : String → String) : ∀ (rows : List (Row τ)) (clock : ℕ → ℤ) (s : Store τ),
    (quarantineEach sha256 rows clock s).1 = (rows.filter (fun r => !verifyRow sha256 r)).map Row.checkpointId
  | [], _, _ => rfl
  | r :: rows, clock, s => by
    rw [quarantineEach, List.filter_cons]
    cases hv : verifyRow sha256 r with
    | true => exact quarantineEach_fst sha256 rows clock s
    | false =>
      have ih := quarantineEach_fst sha256 rows (fun n => clock (n + 1)) (quarantineRow s r (clock 0))
      simp [ih]

theorem rows_quarantineEach (sha256 : String → String) : ∀ (rows : List (Row τ)) (clock : ℕ → ℤ) (s : Store τ),
    (quarantineEach sha256 rows clock s).2.checkpoints.rows =
      s.checkpoints.rows.filter (fun x => rows.all (fun r => verifyRow sha256 r || decide (x.key ≠ r.key)))
  | [], _, s => (List.filter_eq_self.2 (fun _ _ => rfl)).symm
  | r :: rows, clock, s => by
    rw [quarantineEach]
    cases hv : verifyRow sha256 r with
    | true =>
      rw [if_pos rfl, rows_quarantineEach sha256 rows clock s]
      simp [hv]
    | false =>
      rw [if_neg Bool.false_ne_true, rows_quarantineEach sha256 rows, quarantineRow, Table.delete, List.filter_filter]
      refine List.filter_congr (fun x _ => ?_)
      rw [List.all_cons, hv, Bool.false_or, Bool.and_comm, decide_not]

theorem get?_quarantineEach_of_verifies (sha256 : String → String) {k : Scope × τ} : ∀ (rows : List (Row τ))
    (clock : ℕ → ℤ) (s : Store τ), (∀ r ∈ rows, r.key = k → verifyRow sha256 r = true) →
    (quarantineEach sha256 rows clock s).2.quarantine.get? k = s.quarantine.get? k
  | [], _, _, _ => rfl
  | r :: rows, clock, s, h => by
    rw [List.forall_mem_cons] at h
    rw [quarantineEach]
    cases hv : verifyRow sha256 r with
    | true => exact get?_quarantineEach_of_verifies sha256 rows clock s h.2
    | false =>
      have hne : k ≠ r.key := by
        rintro rfl
        rw [h.1 rfl] at hv
        cases hv
      rw [if_neg Bool.false_ne_true, get?_quarantineEach_of_verifies sha256 rows _ _ h.2, get?_quarantineRow,
        if_neg hne]

/-- A corrupt row of the listing is in the side table afterwards, under its key. -/
theorem get?_quarantineEach_of_corrupt (sha256 : String → String) {r : Row τ} (hv : verifyRow sha256 r = false) :
    ∀ (rows : List (Row τ)) (clock : ℕ → ℤ) (s : Store τ), (rows.map Row.key).Nodup → r ∈ rows →
      ∃ n, (quarantineEach sha256 rows clock s).2.quarantine.get? r.key =
        some ⟨r.stateJson, r.stateSha256, corruptionReason, clock n⟩
  | [], _, _, _, hr => by cases hr
  | x :: rows, clock, s, hnodup, hr => by
    rw [List.map_cons, List.nodup_cons] at hnodup
    rw [quarantineEach]
    rcases List.mem_cons.1 hr with rfl | hr
    · refine ⟨0, ?_⟩
      rw [hv, if_neg Bool.false_ne_true, get?_quarantineEach_of_verifies, get?_quarantineRow, if_pos rfl]
      intro y hy he
      exact absurd (he ▸ List.mem_map_of_mem hy) hnodup.1
    · cases hx : verifyRow sha256 x with
      | true => exact get?_quarantineEach_of_corrupt sha256 hv rows clock s hnodup.2 hr
      | false =>
        obtain ⟨n, hn⟩ := get?_quarantineEach_of_corrupt sha256 hv rows (fun n => clock (n + 1))
          (quarantineRow s x (clock 0)) hnodup.2 hr
        exact ⟨n + 1, hn⟩

theorem rows_quarantineCorrupt {sha256 : String → String} {s : Store τ} {scope : Scope}
    (hread : ScopeReadable s.checkpoints scope) (clock : ℕ → ℤ) :
    (quarantineCorrupt sha256 s scope clock).2.checkpoints.rows =
      s.checkpoints.rows.filter (fun r => decide (r.scope ≠ scope) || verifyRow sha256 r) := by
  rw [quarantineCorrupt_of_readable hread, rows_quarantineEach]
  refine List.filter_congr (fun r hr => ?_)
  rw [Bool.eq_iff_iff, List.all_eq_true, Bool.or_eq_true, decide_eq_true_eq]
  constructor
  · intro h
    rw [or_iff_not_imp_left, not_not]
    intro hs
    have hself := h r (mem_newestFirst.2 (Table.mem_inScope.2 ⟨hr, hs⟩))
    simpa using hself
  · intro h x hx
    obtain ⟨hxm, hxs⟩ := Table.mem_inScope.1 (mem_newestFirst.1 hx)
    rw [Bool.or_eq_true, decide_eq_true_eq, or_iff_not_imp_right, not_not]
    intro he
    rw [← Table.eq_of_key hr hxm he] at hxs ⊢
    exact h.resolve_left (not_not.2 hxs)

/-! ## What both do -/

section

variable {sha256 : String → String} {s : Store τ} {scope : Scope}

theorem Due.unique {cid : String} {a b : Row τ} (ha : Due sha256 s scope cid a) (hb : Due sha256 s scope cid b) : a = b := by
  rcases ha with ⟨ha, hav⟩ | ⟨⟨c, hc, hv⟩, ha⟩
  · rcases hb with ⟨hb, -⟩ | ⟨⟨d, hd, hdv⟩, -⟩
    · exact ha.unique hb
    · rw [ha.unique hd, hdv] at hav
      cases hav
  · rcases hb with ⟨hb, hbv⟩ | ⟨-, hb⟩
    · rw [hb.unique hc, hv] at hbv
      cases hbv
    · exact ha.unique hb

/-- The row that was asked for verifies: it is served, and nothing moves. -/
theorem readsVerified_of_verifies {cid : String} {c : Row τ} {row : Row} (hread : ScopeReadable s.checkpoints scope)
    (hc : Requested s scope cid c) (hv : verifyRow sha256 c = true) (hrow : c.decode = some row) (now : ℤ) :
    ReadsVerified sha256 s scope cid now (getVerifiedTuple sha256 s scope cid now) := by
  have hdue : Due sha256 s scope cid c := Or.inl ⟨hc, hv⟩
  have hserved : c.served = .row row := by rw [Row.served, hrow]
  rw [getVerifiedTuple_of_requested hread hc hv, hserved]
  refine ⟨fun r hr => ⟨row, by rw [hr.unique hdue, hrow], rfl⟩, fun x hx => ?_, ?_, ?_, fun _ => rfl, fun d hd hdv => ?_⟩
  · cases hx
    exact ⟨c, hdue, hrow⟩
  · exact iff_of_false (by simp) (fun h => h c hc)
  · refine iff_of_false (by simp) ?_
    rintro ⟨⟨d, hd, hdv⟩, -⟩
    rw [hd.unique hc, hv] at hdv
    cases hdv
  · rw [hd.unique hc, hv] at hdv
    cases hdv

/-- It does not: it is moved aside, and the newest of the others that verifies takes its place. -/
theorem readsVerified_of_corrupt {cid : String} {c : Row τ} (hread : ScopeReadable s.checkpoints scope)
    (hwhole : ∀ r ∈ s.checkpoints.inScope scope, verifyRow sha256 r = true → r.decode ≠ none)
    (hc : Requested s scope cid c) (hv : verifyRow sha256 c = false) (now : ℤ) :
    ReadsVerified sha256 s scope cid now (getVerifiedTuple sha256 s scope cid now) := by
  have hcorrupt : ∃ d, Requested s scope cid d ∧ verifyRow sha256 d = false := ⟨c, hc, hv⟩
  have hmoved : ∀ d, Requested s scope cid d → verifyRow sha256 d = false →
      (quarantineRow s c now).checkpoints.rows = s.checkpoints.rows.filter (fun r => r.key ≠ (scope, TextCell.text cid)) ∧
      ∀ k, (quarantineRow s c now).quarantine.get? k = if k = (scope, TextCell.text cid) then
        some ⟨d.stateJson, d.stateSha256, corruptionReason, now⟩ else s.quarantine.get? k := by
    intro d hd _
    rw [hd.unique hc, ← hc.2]
    exact ⟨by simp [quarantineRow, Table.delete], get?_quarantineRow s c now⟩
  have hstill : (∀ d, Requested s scope cid d → verifyRow sha256 d = true) → quarantineRow s c now = s := by
    intro h
    rw [h c hc] at hv
    cases hv
  rw [getVerifiedTuple_of_corrupt hread hc hv now]
  cases hf : findRemaining sha256 s scope cid with
  | none =>
    have hno := findRemaining_eq_none_iff.1 hf
    refine ⟨fun r hr => ?_, fun x hx => (by cases hx), ?_, ?_, hstill, hmoved⟩
    · rcases hr with ⟨hr, hrv⟩ | ⟨-, hr⟩
      · rw [hr.unique hc, hv] at hrv
        cases hrv
      · exact absurd hr.1 (hno r)
    · exact iff_of_false (by simp) (fun h => h c hc)
    · exact iff_of_true rfl ⟨hcorrupt, hno⟩
  | some r =>
    have hfallback := findRemaining_eq_some hf
    have hdue : Due sha256 s scope cid r := Or.inr ⟨hcorrupt, hfallback⟩
    obtain ⟨row, hrow⟩ := Option.ne_none_iff_exists'.1 (hwhole r hfallback.1.1 hfallback.1.2.2)
    have hserved : r.served = .row row := by rw [Row.served, hrow]
    dsimp only
    rw [hserved]
    refine ⟨fun x hx => ⟨row, by rw [hx.unique hdue, hrow], rfl⟩, fun x hx => ?_, ?_, ?_, hstill, hmoved⟩
    · cases hx
      exact ⟨r, hdue, hrow⟩
    · exact iff_of_false (by simp) (fun h => h c hc)
    · exact iff_of_false (by simp) (fun h => h.2 r hfallback.1)

theorem readsVerified_of_missing {cid : String} (hread : ScopeReadable s.checkpoints scope)
    (hno : ∀ r, ¬ Requested s scope cid r) (now : ℤ) :
    ReadsVerified sha256 s scope cid now (getVerifiedTuple sha256 s scope cid now) := by
  rw [getVerifiedTuple_of_missing hread hno]
  refine ⟨fun r hr => ?_, fun x hx => (by cases hx), iff_of_true rfl hno, ?_, fun _ => rfl, fun d hd => absurd hd (hno d)⟩
  · rcases hr with ⟨hr, -⟩ | ⟨⟨d, hd, -⟩, -⟩
    · exact absurd hr (hno r)
    · exact absurd hd (hno d)
  · refine iff_of_false (by simp) ?_
    rintro ⟨⟨d, hd, -⟩, -⟩
    exact hno d hd

theorem readsVerified_of_readable (hread : ScopeReadable s.checkpoints scope)
    (hwhole : ∀ r ∈ s.checkpoints.inScope scope, verifyRow sha256 r = true → r.decode ≠ none) (cid : String) (now : ℤ) :
    ReadsVerified sha256 s scope cid now (getVerifiedTuple sha256 s scope cid now) := by
  by_cases hreq : ∃ c, Requested s scope cid c
  · obtain ⟨c, hc⟩ := hreq
    cases hv : verifyRow sha256 c with
    | true =>
      have hmem : c ∈ s.checkpoints.inScope scope := Table.mem_inScope.2 ⟨hc.1, (Prod.mk.inj hc.2).1⟩
      obtain ⟨row, hrow⟩ := Option.ne_none_iff_exists'.1 (hwhole c hmem hv)
      exact readsVerified_of_verifies hread hc hv hrow now
    | false => exact readsVerified_of_corrupt hread hwhole hc hv now
  · exact readsVerified_of_missing hread (fun r hr => hreq ⟨r, hr⟩) now

theorem scansScope_of_readable (hread : ScopeReadable s.checkpoints scope) (clock : ℕ → ℤ) :
    ScansScope sha256 s scope clock (quarantineCorrupt sha256 s scope clock) := by
  refine ⟨rows_quarantineCorrupt hread clock, ?_, fun r hr hv => ?_, fun k hk => ?_⟩
  · rw [quarantineCorrupt_of_readable hread, quarantineEach_fst]
  · rw [quarantineCorrupt_of_readable hread]
    exact get?_quarantineEach_of_corrupt sha256 hv _ clock s (nodup_keys_newestFirst _ scope) (mem_newestFirst.2 hr)
  · rw [quarantineCorrupt_of_readable hread]
    refine get?_quarantineEach_of_verifies sha256 _ clock s (fun r hr he => ?_)
    by_contra hv
    exact hk r (mem_newestFirst.1 hr) (Bool.not_eq_true _ ▸ hv) he

end

/-- A row that verifies, and one whose state holds a byte that is not UTF-8. -/
def garbledScope : Store StoredText where
  checkpoints := ⟨[putRow id ⟨"p", "t"⟩ "cp_0" ⟨dumpedState "a", none, false, none, none, none⟩,
    ⟨⟨"p", "t"⟩, .utf8 "cp_1", .garbled [0x7b, 0xff], .utf8 (dumpedState "b"), none, false, 0, none, none⟩], by decide +kernel⟩
  quarantine := Dict.empty

end Storage
end DevHarness
