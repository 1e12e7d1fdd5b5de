import DevHarness.Storage.Saver
import DevHarness.Lib.Machine
/-!
# Session — detecting a session that did not end cleanly (`recovery/session_recovery.py`)

Checkpoints are written through `CheckpointBinding.put_bound` and sealed by `GracefulShutdown`, both with `created_at`
left at its default, so the newest row is the one with the greatest id, and SQLite is free to choose among the scopes
when several rows have it.  `LastIsNewest` is the state of a history whose last write that choice finds.
-/
namespace DevHarness
namespace Recovery

open Lib Storage

/-! ## Writing (`storage/checkpoint_binding.py`, `engine/shutdown.py`) -/

/-- Pydantic's serialisation of a state, and `json` on maps of texts. -/
structure Codec (σ : Type) where
  modelDumpJson : σ → String
  modelValidateJson : String → Option σ
  validate_dump : ∀ s, modelValidateJson (modelDumpJson s) = some s
  dumps : Dict String String → String
  loads : String → Dict String String
  sha256 : String → String

structure Snapshot where
  head : String
  diff : String
  deriving DecidableEq

variable {σ : Type}

def serializeWorktreeState (c : Codec σ) (state : Option (Dict String Snapshot)) : Option String × Option String :=
  match state with
  | none => (none, none)
  | some m => if m.items.isEmpty then (none, none)
    else (some (c.dumps (m.mapValues (·.head))), some (c.dumps (m.mapValues (·.diff))))

def decodeColumn (c : Codec σ) (raw : Option String) : Dict String String :=
  match raw with
  | none => Dict.empty
  | some s => if s = "" then Dict.empty else c.loads s

/-- `deserialize_worktree_state`: the workers of either column, in order. -/
def deserializeWorktreeState (c : Codec σ) (r : Row) : Dict String Snapshot :=
  let heads := decodeColumn c r.worktreeHead
  let diffs := decodeColumn c r.worktreeDiff
  ((heads.keys ++ diffs.keys).dedup.insertionSort (· ≤ ·)).foldl
    (fun d wid => d.set wid ⟨heads.getD wid "", diffs.getD wid ""⟩) Dict.empty

def sealCheckpointId : String := "shutdown"

/-- `put_bound`, at the head `head`; the workspace lock keeps other writers out. -/
def putBound (c : Codec σ) (t : Table) (scope : Scope) (state : σ) (checkpointId : Option String) (isPaused : Bool)
    (worktrees : Option (Dict String Snapshot)) (head : String) : Option Table :=
  put c.sha256 t scope ⟨c.modelDumpJson state, some head, isPaused, none, (serializeWorktreeState c worktrees).1,
    (serializeWorktreeState c worktrees).2⟩ checkpointId

/-! ## Detecting -/

structure RecoveryPlan (σ : Type) where
  scope : Scope
  checkpointId : String
  state : σ
  worktrees : Dict String Snapshot

inductive DetectError where
  | corruptCheckpoint
  | operationalError
  | validation
  deriving DecidableEq

/-- What `_newest_checkpoint`'s query may return: `LIMIT 1` of an order that ties across scopes. -/
def IsNewest (t : Table) : Option Row → Prop
  | none => t.rows = []
  | some r => r ∈ t.rows ∧ ∀ x ∈ t.rows, r.Newer x

def planFor (c : Codec σ) (scope : Scope) (served : Row) : Except DetectError (Option (RecoveryPlan σ)) :=
  match c.modelValidateJson served.stateJson with
  | none => .error .validation
  | some state => .ok (some ⟨scope, served.checkpointId, state, deserializeWorktreeState c served⟩)

instance (t : Table) : ∀ newest, Decidable (IsNewest t newest)
  | none => inferInstanceAs (Decidable (t.rows = []))
  | some r => inferInstanceAs (Decidable (r ∈ t.rows ∧ ∀ x ∈ t.rows, r.Newer x))

/-- `detect_unfinalized_session`, `newest` being what the query returned. -/
def detectUnfinalizedSession (c : Codec σ) (s : Store) (newest : Option Row) (now : ℤ) :
    Except DetectError (Option (RecoveryPlan σ)) :=
  match newest with
  | none => .ok none
  | some r => if r.checkpointId = sealCheckpointId then .ok none
    else match (getVerifiedTuple c.sha256 s r.scope r.checkpointId now).1 with
      | .missing => .ok none
      | .corrupt => .error .corruptCheckpoint
      | .operationalError => .error .operationalError
      | .row served => if served.checkpointId = sealCheckpointId then .ok none else planFor c r.scope served

/-! ## Histories -/

/-- A checkpoint with its default id, or the seal of a clean shutdown. -/
inductive Write (σ : Type) where
  | checkpoint (scope : Scope) (state : σ) (isPaused : Bool) (worktrees : Option (Dict String Snapshot)) (head : String)
  | shutdown (scope : Scope) (state : σ) (head : String)

structure Written (σ : Type) where
  scope : Scope
  checkpointId : String
  state : σ
  sealed : Bool
  deriving DecidableEq

structure Sessions (σ : Type) where
  store : Store
  last : Option (Written σ) := none

/-- One write; one that raises writes nothing. -/
def Sessions.write (c : Codec σ) (s : Sessions σ) : Write σ → Sessions σ
  | .checkpoint scope state isPaused worktrees head =>
    match putBound c s.store.checkpoints scope state none isPaused worktrees head with
    | none => s
    | some t => ⟨{ s.store with checkpoints := t },
        some ⟨scope, defaultId s.store.checkpoints scope, state, false⟩⟩
  | .shutdown scope state head =>
    match putBound c s.store.checkpoints scope state (some sealCheckpointId) true none head with
    | none => s
    | some t => ⟨{ s.store with checkpoints := t }, some ⟨scope, sealCheckpointId, state, true⟩⟩

def Sessions.after (c : Codec σ) (ws : List (Write σ)) : Sessions σ := ws.foldl (Sessions.write c) ⟨Store.empty, none⟩

/-- **Detection answers for the last write**: nothing after a seal or with nothing written, else a plan for the last
checkpoint. -/
def DetectsLast (c : Codec σ) (s : Sessions σ) (newest : Option Row) (now : ℤ) : Prop :=
  match s.last with
  | none => detectUnfinalizedSession c s.store newest now = .ok none
  | some w => if w.sealed then detectUnfinalizedSession c s.store newest now = .ok none
    else ∃ plan, detectUnfinalizedSession c s.store newest now = .ok (some plan) ∧ plan.scope = w.scope ∧
      plan.checkpointId = w.checkpointId ∧ plan.state = w.state

/-- **The last write is the newest row**: nothing was written, or the last write is a seal, or no row is a seal and the
last id is greater, as a text, than every other row's. -/
def LastIsNewest (s : Sessions σ) : Prop :=
  ∀ w ∈ s.last, w.sealed = true ∨
    ∀ r ∈ s.store.checkpoints.rows, r.checkpointId ≠ sealCheckpointId ∧
      (r.key ≠ (w.scope, w.checkpointId) → r.checkpointId < w.checkpointId)

/-! ## The invariant of a history -/

theorem cp_lt_seal (k : String) : "cp_" ++ k < sealCheckpointId := by
  rw [sealCheckpointId, String.lt_iff_toList_lt, String.toList_append]
  show 'c' :: ('p' :: '_' :: k.toList) < 's' :: _
  exact List.Lex.rel (by decide)

structure PlainRow (c : Codec σ) (r : Row) : Prop where
  createdAt : r.createdAt = 0
  verifies : verifyRow c.sha256 r = true
  id : r.checkpointId = sealCheckpointId ∨ ∃ k, r.checkpointId = "cp_" ++ k

/-- Every row is as these writes leave it, and the last write is one of them. -/
structure HistoryInv (c : Codec σ) (s : Sessions σ) : Prop where
  rows : ∀ r ∈ s.store.checkpoints.rows, PlainRow c r
  unwritten : s.last = none → s.store.checkpoints.rows = []
  last : ∀ w, s.last = some w → ∃ r ∈ s.store.checkpoints.rows, r.key = (w.scope, w.checkpointId) ∧
    c.modelValidateJson r.stateJson = some w.state ∧ (w.sealed = true ↔ w.checkpointId = sealCheckpointId)

theorem plainRow_putRow (c : Codec σ) (scope : Scope) (cid : String) (state : σ) (isPaused : Bool)
    (wt : Option String × Option String) (head : String)
    (hid : cid = sealCheckpointId ∨ ∃ k, cid = "cp_" ++ k) :
    PlainRow c (putRow c.sha256 scope cid ⟨c.modelDumpJson state, some head, isPaused, none, wt.1, wt.2⟩) :=
  ⟨rfl, decide_eq_true rfl, hid⟩

theorem historyInv_put (c : Codec σ) (s : Sessions σ) (hinv : HistoryInv c s) (scope : Scope) (cid : String) (state : σ)
    (isPaused : Bool) (wt : Option String × Option String) (head : String) (sealed : Bool)
    (hid : cid = sealCheckpointId ∨ ∃ k, cid = "cp_" ++ k) (hseal : sealed = true ↔ cid = sealCheckpointId) {t : Table}
    (ht : s.store.checkpoints.insert (putRow c.sha256 scope cid
      ⟨c.modelDumpJson state, some head, isPaused, none, wt.1, wt.2⟩) = some t) :
    HistoryInv c ⟨{ s.store with checkpoints := t }, some ⟨scope, cid, state, sealed⟩⟩ := by
  obtain ⟨-, hrows⟩ := Table.insert_eq_some_iff.1 ht
  refine ⟨fun r hr => ?_, fun h => (by cases h), fun w hw => ?_⟩
  · dsimp only at hr
    rw [hrows] at hr
    rcases List.mem_append.1 hr with hr | hr
    · exact hinv.rows r hr
    · rw [List.mem_singleton.1 hr]
      exact plainRow_putRow c scope cid state isPaused wt head hid
  · cases hw
    exact ⟨_, by dsimp only; rw [hrows]; exact List.mem_append_right _ (List.mem_singleton.2 rfl), rfl,
      c.validate_dump state, hseal⟩

theorem historyInv_write (c : Codec σ) (s : Sessions σ) (hinv : HistoryInv c s) (w : Write σ) :
    HistoryInv c (s.write c w) := by
  cases w with
  | checkpoint scope state isPaused worktrees head =>
    unfold Sessions.write
    dsimp only
    cases hp : putBound c s.store.checkpoints scope state none isPaused worktrees head with
    | none => exact hinv
    | some t =>
      rw [putBound, put_eq, insertPut_of_fits (PutArgs.fits_of_none rfl)] at hp
      refine historyInv_put c s hinv scope _ state isPaused _ head false (Or.inr ⟨_, rfl⟩) ?_ hp
      refine ⟨fun h => (by cases h), fun h => ?_⟩
      exact absurd h (ne_of_lt (cp_lt_seal _))
  | shutdown scope state head =>
    unfold Sessions.write
    dsimp only
    cases hp : putBound c s.store.checkpoints scope state (some sealCheckpointId) true none head with
    | none => exact hinv
    | some t =>
      have hchosen : chosenId s.store.checkpoints scope (some sealCheckpointId) = sealCheckpointId := by
        rw [chosenId, if_neg (by decide)]
      rw [putBound, put_eq, hchosen, insertPut_of_fits (PutArgs.fits_of_none rfl)] at hp
      exact historyInv_put c s hinv scope _ state true _ head true (Or.inl rfl) (by simp) hp

theorem historyInv_foldl (c : Codec σ) : ∀ (ws : List (Write σ)) (s : Sessions σ), HistoryInv c s →
    HistoryInv c (ws.foldl (Sessions.write c) s)
  | [], _, hinv => hinv
  | w :: ws, s, hinv => historyInv_foldl c ws (s.write c w) (historyInv_write c s hinv w)

theorem historyInv_after (c : Codec σ) (ws : List (Write σ)) : HistoryInv c (Sessions.after c ws) :=
  historyInv_foldl c ws ⟨Store.empty, none⟩ ⟨fun r hr => (by cases hr), fun _ => rfl, fun w hw => (by cases hw)⟩

/-! ## The newest row -/

theorem exists_isNewest {t : Table} (h : t.rows ≠ []) : ∃ r, IsNewest t (some r) := by
  have hlen : (newestFirst t.rows) ≠ [] := by
    intro hn
    have := congrArg List.length hn
    rw [length_newestFirst] at this
    exact h (List.length_eq_zero_iff.1 this)
  obtain ⟨r, rest, hr⟩ := List.exists_cons_of_ne_nil hlen
  have hpair := pairwise_newestFirst t.rows
  rw [hr, List.pairwise_cons] at hpair
  have hmem : ∀ x, x ∈ t.rows ↔ x = r ∨ x ∈ rest := by
    intro x
    rw [← mem_newestFirst, hr, List.mem_cons]
  refine ⟨r, (hmem r).2 (Or.inl rfl), fun x hx => ?_⟩
  rcases (hmem x).1 hx with rfl | hx
  · exact Or.inr ⟨rfl, le_refl _⟩
  · exact hpair.1 x hx

theorem HistoryInv.newer_iff {c : Codec σ} {s : Sessions σ} (hinv : HistoryInv c s) {a b : Row}
    (ha : a ∈ s.store.checkpoints.rows) (hb : b ∈ s.store.checkpoints.rows) :
    a.Newer b ↔ b.checkpointId ≤ a.checkpointId := by
  unfold Row.Newer
  rw [(hinv.rows a ha).createdAt, (hinv.rows b hb).createdAt]
  simp

theorem HistoryInv.detect_some {c : Codec σ} {s : Sessions σ} (hinv : HistoryInv c s) {r : Row}
    (hr : r ∈ s.store.checkpoints.rows) (now : ℤ) :
    detectUnfinalizedSession c s.store (some r) now =
      if r.checkpointId = sealCheckpointId then .ok none else planFor c r.scope r := by
  have hread := getVerifiedTuple_of_verifies hr (hinv.rows r hr).verifies now
  unfold detectUnfinalizedSession
  by_cases hs : r.checkpointId = sealCheckpointId
  · simp only [hs, if_true]
  · simp only [hread, hs, if_false]

/-- **Detection of a row that is no seal answers for the last write** exactly when it is the last write's row. -/
theorem HistoryInv.detects_iff {c : Codec σ} {s : Sessions σ} (hinv : HistoryInv c s) {r : Row}
    (hr : r ∈ s.store.checkpoints.rows) {w : Written σ} (hw : s.last = some w) (hopen : w.sealed = false) (now : ℤ) :
    DetectsLast c s (some r) now ↔ r.key = (w.scope, w.checkpointId) := by
  obtain ⟨rw', hrw, hkey, hparse, hseal⟩ := hinv.last w hw
  unfold DetectsLast
  rw [hw, hinv.detect_some hr now]
  simp only [hopen, Bool.false_eq_true, if_false]
  constructor
  · rintro ⟨plan, hplan, hscope, hid, -⟩
    by_cases hs : r.checkpointId = sealCheckpointId
    · rw [if_pos hs] at hplan
      cases hplan
    · rw [if_neg hs, planFor] at hplan
      cases hv : c.modelValidateJson r.stateJson with
      | none => rw [hv] at hplan; cases hplan
      | some state =>
        rw [hv] at hplan
        cases hplan
        exact Prod.ext hscope hid
  · intro hk
    have hrr : r = rw' := Table.eq_of_key hr hrw (hk.trans hkey.symm)
    subst hrr
    have hne : r.checkpointId ≠ sealCheckpointId := by
      have hid : r.checkpointId = w.checkpointId := congrArg Prod.snd hk
      rw [hid]
      intro he
      rw [hseal.2 he] at hopen
      cases hopen
    rw [if_neg hne, planFor, hparse]
    exact ⟨_, rfl, congrArg Prod.fst hk, congrArg Prod.snd hk, rfl⟩

theorem HistoryInv.le_newest {c : Codec σ} {s : Sessions σ} (hinv : HistoryInv c s) {r x : Row}
    (hn : IsNewest s.store.checkpoints (some r)) (hx : x ∈ s.store.checkpoints.rows) : x.checkpointId ≤ r.checkpointId :=
  (hinv.newer_iff hn.1 hx).1 (hn.2 x hx)

theorem HistoryInv.detects_of_unwritten {c : Codec σ} {s : Sessions σ} (hinv : HistoryInv c s) (hw : s.last = none)
    {newest : Option Row} (hn : IsNewest s.store.checkpoints newest) (now : ℤ) : DetectsLast c s newest now := by
  have hempty := hinv.unwritten hw
  unfold DetectsLast
  rw [hw]
  cases newest with
  | none => rfl
  | some r =>
    rw [IsNewest, hempty] at hn
    cases hn.1

/-- After a seal the newest row is some seal: its id is the greatest there is. -/
theorem HistoryInv.detects_of_sealed {c : Codec σ} {s : Sessions σ} (hinv : HistoryInv c s) {w : Written σ}
    (hw : s.last = some w) (hs : w.sealed = true) {newest : Option Row} (hn : IsNewest s.store.checkpoints newest)
    (now : ℤ) : DetectsLast c s newest now := by
  obtain ⟨rlast, hlast, hkey, -, hseal⟩ := hinv.last w hw
  unfold DetectsLast
  rw [hw]
  simp only [hs, if_true]
  cases newest with
  | none => rfl
  | some r =>
    have hge : sealCheckpointId ≤ r.checkpointId := by
      have hlastid : rlast.checkpointId = sealCheckpointId := (congrArg Prod.snd hkey).trans (hseal.1 hs)
      rw [← hlastid]
      exact hinv.le_newest hn hlast
    have hid : r.checkpointId = sealCheckpointId := by
      rcases (hinv.rows r hn.1).id with h | ⟨k, hk⟩
      · exact h
      · rw [hk] at hge
        exact absurd (cp_lt_seal k) (not_lt.2 hge)
    rw [hinv.detect_some hn.1 now, if_pos hid]

theorem HistoryInv.last_lt_seal {c : Codec σ} {s : Sessions σ} (hinv : HistoryInv c s) {w : Written σ}
    (hw : s.last = some w) (hs : w.sealed = false) : w.checkpointId < sealCheckpointId := by
  obtain ⟨rlast, hlast, hkey, -, hseal⟩ := hinv.last w hw
  have hlastid : rlast.checkpointId = w.checkpointId := congrArg Prod.snd hkey
  rcases (hinv.rows rlast hlast).id with h | ⟨k, hk⟩
  · rw [hlastid] at h
    rw [hseal.2 h] at hs
    cases hs
  · rw [← hlastid, hk]
    exact cp_lt_seal k

/-- **If detection answers for an open last checkpoint whatever row the query returns**, no seal is stored and no other id
is as great. -/
theorem HistoryInv.newest_of_detects {c : Codec σ} {s : Sessions σ} (hinv : HistoryInv c s) {w : Written σ}
    (hw : s.last = some w) (hs : w.sealed = false) {now : ℤ}
    (hall : ∀ newest, IsNewest s.store.checkpoints newest → DetectsLast c s newest now) :
    ∀ r ∈ s.store.checkpoints.rows, r.checkpointId ≠ sealCheckpointId ∧
      (r.key ≠ (w.scope, w.checkpointId) → r.checkpointId < w.checkpointId) := by
  obtain ⟨rlast, hlast, -⟩ := hinv.last w hw
  obtain ⟨rmax, hmax⟩ := exists_isNewest (List.ne_nil_of_mem hlast)
  have hidmax : rmax.checkpointId = w.checkpointId :=
    congrArg Prod.snd ((hinv.detects_iff hmax.1 hw hs now).1 (hall (some rmax) hmax))
  intro r hr
  have hler : r.checkpointId ≤ w.checkpointId := hidmax ▸ hinv.le_newest hmax hr
  constructor
  · intro he
    rw [he] at hler
    exact absurd (hinv.last_lt_seal hw hs) (not_lt.2 hler)
  · intro hne
    rcases lt_or_eq_of_le hler with hlt | heq
    · exact hlt
    · -- a tie: the query may as well return this row
      have hnew : IsNewest s.store.checkpoints (some r) := by
        refine ⟨hr, fun x hx => (hinv.newer_iff hr hx).2 ?_⟩
        rw [heq, ← hidmax]
        exact hinv.le_newest hmax hx
      exact absurd ((hinv.detects_iff hr hw hs now).1 (hall (some r) hnew)) hne

theorem HistoryInv.detects_of_newest {c : Codec σ} {s : Sessions σ} (hinv : HistoryInv c s) {w : Written σ}
    (hw : s.last = some w) (hs : w.sealed = false)
    (hrows : ∀ r ∈ s.store.checkpoints.rows, r.key ≠ (w.scope, w.checkpointId) → r.checkpointId < w.checkpointId)
    {newest : Option Row} (hn : IsNewest s.store.checkpoints newest) (now : ℤ) : DetectsLast c s newest now := by
  obtain ⟨rlast, hlast, hkey, -⟩ := hinv.last w hw
  cases newest with
  | none => exact absurd hn (List.ne_nil_of_mem hlast)
  | some r =>
    rw [hinv.detects_iff hn.1 hw hs now]
    by_contra hne
    have hlt := hrows r hn.1 hne
    have hge := hinv.le_newest hn hlast
    rw [show rlast.checkpointId = w.checkpointId from congrArg Prod.snd hkey] at hge
    exact absurd hlt (not_lt.2 hge)

/-- **Detection answers for the last write, whichever newest row the query returns, exactly when the last write is the
newest row**, after every history. -/
theorem detectsLast_iff_lastIsNewest (c : Codec σ) (ws : List (Write σ)) (now : ℤ) :
    (∀ newest, IsNewest (Sessions.after c ws).store.checkpoints newest → DetectsLast c (Sessions.after c ws) newest now) ↔
      LastIsNewest (Sessions.after c ws) := by
  have hinv := historyInv_after c ws
  generalize Sessions.after c ws = s at hinv ⊢
  cases hw : s.last with
  | none =>
    refine iff_of_true (fun newest hn => hinv.detects_of_unwritten hw hn now) ?_
    intro w hw'
    rw [hw] at hw'
    cases hw'
  | some w =>
    have hlast : LastIsNewest s ↔ w.sealed = true ∨ ∀ r ∈ s.store.checkpoints.rows, r.checkpointId ≠ sealCheckpointId ∧
        (r.key ≠ (w.scope, w.checkpointId) → r.checkpointId < w.checkpointId) := by
      unfold LastIsNewest
      rw [hw]
      simp
    rw [hlast]
    cases hs : w.sealed with
    | true => exact iff_of_true (fun newest hn => hinv.detects_of_sealed hw hs hn now) (Or.inl rfl)
    | false =>
      constructor
      · intro hall
        exact Or.inr (hinv.newest_of_detects hw hs hall)
      · intro h newest hn
        have hrows := h.resolve_left (by simp)
        exact hinv.detects_of_newest hw hs (fun r hr => (hrows r hr).2) hn now

/-! ## A restart after a clean shutdown -/

def plainCodec : Codec String where
  modelDumpJson := id
  modelValidateJson := some
  validate_dump _ := rfl
  dumps d := String.join (d.items.map (fun p => p.1 ++ "=" ++ p.2 ++ ";"))
  loads _ := Dict.empty
  sha256 := id

def restarted : List (Write String) :=
  [.shutdown ⟨"p", "t"⟩ "sealed" "h0", .checkpoint ⟨"p", "t"⟩ "resumed" false none "h1"]

/-- **A crash after a restart goes undetected**: the seal of the earlier shutdown is still the newest row, and detection
answers that the session ended cleanly. -/
theorem restart_undetected : (Sessions.after plainCodec restarted).last = some ⟨⟨"p", "t"⟩, "cp_1", "resumed", false⟩ ∧
    ∃ newest, IsNewest (Sessions.after plainCodec restarted).store.checkpoints newest ∧
      detectUnfinalizedSession plainCodec (Sessions.after plainCodec restarted).store newest 0 = .ok none ∧
      ¬ DetectsLast plainCodec (Sessions.after plainCodec restarted) newest 0 := by
  have hlast : (Sessions.after plainCodec restarted).last = some ⟨⟨"p", "t"⟩, "cp_1", "resumed", false⟩ := by decide +kernel
  let sealRow : Row := ⟨⟨"p", "t"⟩, "shutdown", "sealed", "sealed", some "h0", true, 0, none, none⟩
  have hnew : IsNewest (Sessions.after plainCodec restarted).store.checkpoints (some sealRow) := by decide +kernel
  have hnone : detectUnfinalizedSession plainCodec (Sessions.after plainCodec restarted).store (some sealRow) 0 =
      .ok none := rfl
  refine ⟨hlast, some sealRow, hnew, hnone, fun h => ?_⟩
  unfold DetectsLast at h
  rw [hlast] at h
  obtain ⟨plan, hplan, -⟩ := h
  rw [hnone] at hplan
  cases hplan

end Recovery
end DevHarness
