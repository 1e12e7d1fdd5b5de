import DevHarness.Lib.JsonText
import DevHarness.Recovery.Resume
/-!
# CrashRecovery — the workers' uncommitted work, from the last checkpoint back into worktrees

`capture_map` (`engine/worker_workspace.py`) takes each worker's HEAD and diff, `put_bound`
(`storage/checkpoint_binding.py`) writes them as two JSON columns of the checkpoint, and after a crash detection reads
them back and `resume` (`recovery/session_recovery.py`) restores each in a worktree of the worker's own.  The columns lose
nothing (`get?_deserialize_serialize`), and where every worker can be bound again each has its HEAD and its files back
(`recovers_worktrees`).
-/
namespace DevHarness
namespace Recovery

open Lib Storage Engine

/-! ## The two columns -/

/-- `json.dumps` of a map of texts with `sort_keys`. -/
def dumpsMap (m : Dict String String) : String :=
  String.ofList (JsonText.dumps (.dict ((m.items.insertionSort (fun p q => p.1 ≤ q.1)).map
    (fun p => (p.1.toList, JsonText.Value.str p.2.toList)))))

def member : Text × JsonText.Value → Option (String × String)
  | (k, .str v) => some (String.ofList k, String.ofList v)
  | _ => none

/-- `json.loads` of a column. -/
def loadsMap (raw : String) : Dict String String :=
  match JsonText.loads raw.toList with
  | some (.dict items) => Dict.ofList (items.filterMap member)
  | _ => Dict.empty

variable {σ : Type}

/-- The codec with Python's JSON on maps of texts. -/
def Codec.json (c : Codec σ) : Codec σ := { c with dumps := dumpsMap, loads := loadsMap }

/-- **A map comes back from its JSON.** -/
theorem get?_loadsMap_dumpsMap (m : Dict String String) (k : String) : (loadsMap (dumpsMap m)).get? k = m.get? k := by
  have hloads : JsonText.loads (dumpsMap m).toList =
      some (.dict ((m.items.insertionSort (fun p q => p.1 ≤ q.1)).map
        (fun p => (p.1.toList, JsonText.Value.str p.2.toList)))) := by
    rw [dumpsMap, String.toList_ofList]
    exact JsonText.loads_dumps_self _
  have hperm := List.perm_insertionSort (fun p q : String × String => p.1 ≤ q.1) m.items
  rw [loadsMap, hloads]
  dsimp only
  have hmembers : ∀ l : List (String × String),
      (l.map (fun p => (p.1.toList, JsonText.Value.str p.2.toList))).filterMap member = l := by
    intro l
    rw [List.filterMap_map]
    have hsome : member ∘ (fun p : String × String => (p.1.toList, JsonText.Value.str p.2.toList)) = some := by
      funext p
      simp [member]
    rw [hsome, List.filterMap_some]
  rw [hmembers]
  have hnodup : ((m.items.insertionSort (fun p q => p.1 ≤ q.1)).map Prod.fst).Nodup :=
    (hperm.map Prod.fst).nodup_iff.2 m.nodup
  cases hk : m.get? k with
  | some v => exact Dict.get?_ofList_of_nodup hnodup (hperm.mem_iff.2 ((m.get?_eq_some_iff k v).1 hk))
  | none =>
    cases hg : (Dict.ofList (m.items.insertionSort (fun p q => p.1 ≤ q.1))).get? k with
    | none => rfl
    | some v =>
      have hmem := hperm.mem_iff.1 (Dict.mem_of_get?_ofList hg)
      rw [(m.get?_eq_some_iff k v).2 hmem] at hk
      cases hk

theorem dumpsMap_ne_empty (m : Dict String String) : dumpsMap m ≠ "" := by
  intro h
  have hlist := congrArg String.toList h
  rw [dumpsMap, String.toList_ofList, JsonText.dumps] at hlist
  cases hlist

theorem get?_decodeColumn (c : Codec σ) (m : Dict String String) (k : String) :
    (decodeColumn c.json (some (dumpsMap m))).get? k = m.get? k := by
  show (if dumpsMap m = "" then Dict.empty else loadsMap (dumpsMap m)).get? k = m.get? k
  rw [if_neg (dumpsMap_ne_empty m), get?_loadsMap_dumpsMap]

theorem get?_foldl_set_value {V : Type} (f : String → V) (k : String) : ∀ (ids : List String) (d : Dict String V),
    (ids.foldl (fun d wid => d.set wid (f wid)) d).get? k = if k ∈ ids then some (f k) else d.get? k
  | [], d => rfl
  | wid :: ids, d => by
    rw [List.foldl_cons, get?_foldl_set_value f k ids, Dict.get?_set]
    by_cases hk : k = wid
    · simp [hk]
    · simp [hk]

/-- **The two columns hold the whole map**: each worker's HEAD and diff, whatever texts they are. -/
theorem get?_deserialize_serialize (c : Codec σ) (worktrees : Option (Dict String Snapshot)) (r : Row)
    (hhead : r.worktreeHead = (serializeWorktreeState c.json worktrees).1)
    (hdiff : r.worktreeDiff = (serializeWorktreeState c.json worktrees).2) (wid : String) :
    (deserializeWorktreeState c.json r).get? wid = worktrees.bind (fun m => m.get? wid) := by
  cases worktrees with
  | none =>
    rw [deserializeWorktreeState, hhead, hdiff]
    rfl
  | some m =>
    by_cases hempty : m.items.isEmpty = true
    · rw [deserializeWorktreeState, hhead, hdiff, serializeWorktreeState, if_pos hempty]
      have hitems : m.items = [] := List.isEmpty_iff.1 hempty
      show none = m.get? wid
      rw [Dict.get?, hitems]
      rfl
    · rw [serializeWorktreeState, if_neg hempty] at hhead hdiff
      have hheads : ∀ k, (decodeColumn c.json r.worktreeHead).get? k = (m.get? k).map (·.head) := by
        intro k
        rw [hhead, ← Dict.get?_mapValues]
        exact get?_decodeColumn c (m.mapValues (·.head)) k
      have hdiffs : ∀ k, (decodeColumn c.json r.worktreeDiff).get? k = (m.get? k).map (·.diff) := by
        intro k
        rw [hdiff, ← Dict.get?_mapValues]
        exact get?_decodeColumn c (m.mapValues (·.diff)) k
      have hmem : wid ∈ (((decodeColumn c.json r.worktreeHead).keys ++
          (decodeColumn c.json r.worktreeDiff).keys).dedup).insertionSort (· ≤ ·) ↔ (m.get? wid).isSome = true := by
        rw [List.mem_insertionSort, List.mem_dedup, List.mem_append, Dict.mem_keys_iff, Dict.mem_keys_iff, hheads, hdiffs]
        cases m.get? wid <;> simp
      rw [deserializeWorktreeState, get?_foldl_set_value, Dict.getD, Dict.getD, hheads, hdiffs]
      show _ = m.get? wid
      cases hm : m.get? wid with
      | none =>
        rw [hm] at hmem
        rw [if_neg (fun h => by cases hmem.1 h)]
        rfl
      | some snapshot =>
        rw [hm] at hmem
        rw [if_pos (hmem.2 rfl)]
        rfl

/-! ## Capturing every worker -/

section
variable (g : GitDiff String String) (o : Objects String String String) (ignored : String → Bool)

/-- `capture_map`, on top of what is captured. -/
def captureMap : List String → Dict String Snapshot → Roots String String String →
    Except WorkspaceError (Dict String Snapshot) × Roots String String String
  | [], captured, roots => (.ok captured, roots)
  | wid :: wids, captured, roots => match capture g o ignored roots wid with
    | (.error e, roots') => (.error e, roots')
    | (.ok snapshot, roots') => captureMap wids (captured.set wid ⟨snapshot.head, snapshot.diff⟩) roots'

/-- The worker is bound, at a commit of the store, and its state can be captured. -/
def CanCapture (roots : Roots String String String) (wid : String) (w : WorkCheckout) : Prop :=
  roots wid = some w ∧ o.Has w.head ∧ Capturable g ignored w

variable {g o ignored}

/-- **Capturing workers that can be changes none of them**, and what is captured of each comes back. -/
theorem captureMap_ok {roots : Roots String String String} : ∀ (wids : List String) (captured : Dict String Snapshot),
    (∀ wid ∈ wids, ∃ w, CanCapture g o ignored roots wid w) →
    ∃ captured', captureMap g o ignored wids captured roots = (.ok captured', roots) ∧
      (∀ wid, wid ∉ wids → captured'.get? wid = captured.get? wid) ∧
      ∀ wid ∈ wids, ∃ snapshot, captured'.get? wid = some snapshot ∧
        ∀ w, roots wid = some w → ComesBack g o w ⟨snapshot.head, snapshot.diff⟩
  | [], captured, _ => ⟨captured, rfl, fun _ _ => rfl, fun _ h => by cases h⟩
  | wid :: wids, captured, h => by
    obtain ⟨w, hroot, hhas, hcapturable⟩ := h wid List.mem_cons_self
    obtain ⟨hkept, snapshot, hsnapshot, hback⟩ := roundTrips_of_capturable g o hroot hhas hcapturable
    have hcapture : capture g o ignored roots wid = (.ok snapshot, roots) := Prod.ext hsnapshot hkept
    obtain ⟨captured', hmap, hother, hown⟩ := captureMap_ok wids (captured.set wid ⟨snapshot.head, snapshot.diff⟩)
      (fun wid' hwid' => h wid' (List.mem_cons_of_mem _ hwid'))
    refine ⟨captured', ?_, fun wid' hnot => ?_, fun wid' hmem => ?_⟩
    · simp only [captureMap, hcapture]
      exact hmap
    · rw [List.mem_cons, not_or] at hnot
      rw [hother wid' hnot.2, Dict.get?_set_ne _ _ hnot.1]
    · by_cases hin : wid' ∈ wids
      · exact hown wid' hin
      · have hwid : wid' = wid := (List.mem_cons.1 hmem).resolve_right hin
        refine ⟨⟨snapshot.head, snapshot.diff⟩, ?_, fun w' hw' => ?_⟩
        · rw [hother wid' hin, hwid, Dict.get?_set_self]
        · rw [hwid, hroot] at hw'
          cases hw'
          exact hback

end

/-! ## Restoring every worker -/

namespace Repository

section
variable {g : GitDiff String String} {o : Objects String String String} {accepts : String → Bool}

/-- **A worker that can be bound gets its state back**, on the branch of its own name. -/
theorem rebindWorker_comesBack {r : Repository} (pid : ℕ) {workerId : String} {snapshot : Snapshot} {w : WorkCheckout}
    (hbind : Bindable accepts r workerId) (hhead : o.Has r.head)
    (hback : ComesBack g o w ⟨snapshot.head, snapshot.diff⟩) :
    ∃ c, (r.rebindWorker accepts g o pid workerId snapshot).1 = true ∧ c.head = w.head ∧ c.files = w.files ∧
      (r.rebindWorker accepts g o pid workerId snapshot).2.checkouts.get? workerId =
        some ⟨some (chunkBranch workerId), false, c⟩ := by
  rcases r.bind_cases accepts pid workerId with ⟨hnot, -⟩ | ⟨-, hknown, -⟩ | ⟨-, hmade⟩
  · exact absurd hbind.1 hnot
  · rw [hbind.2] at hknown
    cases hknown
  · obtain ⟨c, hrestore, hc, hfiles⟩ := hback _ workerId _ (r.addWorktree_roots pid workerId (chunkBranch workerId))
      ⟨rfl, rfl⟩ hhead
    refine ⟨c, ?_⟩
    unfold rebindWorker
    rw [hmade]
    simp only [hrestore, Function.update_self]
    refine ⟨rfl, hc, hfiles, ?_⟩
    exact Dict.get?_set_self _ _ _

/-- **A plan of workers that can be bound is carried out**, and each has its state back. -/
theorem rebindWorkers_comesBack (pid : ℕ) : ∀ (plan : List (String × Snapshot)) (r : Repository),
    (plan.map Prod.fst).Nodup → o.Has r.head →
    (∀ p ∈ plan, Bindable accepts r p.1 ∧ ∃ w, ComesBack g o w ⟨p.2.head, p.2.diff⟩) →
    (rebindWorkers accepts g o pid plan r).1 = .ok () ∧
    ∀ p ∈ plan, ∀ w, ComesBack g o w ⟨p.2.head, p.2.diff⟩ → ∃ c, c.head = w.head ∧ c.files = w.files ∧
      (rebindWorkers accepts g o pid plan r).2.checkouts.get? p.1 = some ⟨some (chunkBranch p.1), false, c⟩
  | [], r, _, _, _ => ⟨rfl, fun _ h => by cases h⟩
  | (workerId, snapshot) :: plan, r, hnodup, hhead, hall => by
    rw [List.map_cons, List.nodup_cons] at hnodup
    obtain ⟨hbind, w₀, hback₀⟩ := hall _ List.mem_cons_self
    obtain ⟨-, hdone, -⟩ := rebindWorker_comesBack pid hbind hhead hback₀
    have hsame : ∀ other, other ≠ workerId →
        SameFor r (r.rebindWorker accepts g o pid workerId snapshot).2 other :=
      fun other hne => r.rebindWorker_sameFor g o accepts pid snapshot hne
    have hlater : ∀ p ∈ plan, p.1 ≠ workerId := by
      rintro p hp rfl
      exact hnodup.1 (List.mem_map.2 ⟨p, hp, rfl⟩)
    have hsameHead : (r.rebindWorker accepts g o pid workerId snapshot).2.head = r.head := by
      rcases r.rebindWorker_cases g o accepts pid workerId snapshot with ⟨-, h⟩ | ⟨-, -, h⟩ | ⟨-, ok, c, -, h⟩
      · rw [h]
        exact (r.deleteBranch_rest _).2.1
      · rw [h]
      · rw [h]
    obtain ⟨hok, hrest⟩ := rebindWorkers_comesBack pid plan (r.rebindWorker accepts g o pid workerId snapshot).2
      hnodup.2 (hsameHead ▸ hhead) (fun p hp => ⟨((hsame p.1 (hlater p hp)).bindable_iff accepts).2
        (hall p (List.mem_cons_of_mem _ hp)).1, (hall p (List.mem_cons_of_mem _ hp)).2⟩)
    have hrun : rebindWorkers accepts g o pid ((workerId, snapshot) :: plan) r =
        rebindWorkers accepts g o pid plan (r.rebindWorker accepts g o pid workerId snapshot).2 := by
      rw [rebindWorkers, if_pos hdone]
    rw [hrun]
    refine ⟨hok, fun p hp w hback => ?_⟩
    rcases List.mem_cons.1 hp with rfl | hin
    · obtain ⟨c, -, hc, hfiles, hget⟩ := rebindWorker_comesBack pid hbind hhead hback
      refine ⟨c, hc, hfiles, ?_⟩
      rw [(rebindWorkers_sameFor g o accepts pid plan _ hnodup.1).checkout]
      exact hget
    · exact hrest p hin w hback

end
end Repository

/-! ## From the checkpoint to the worktrees -/

/-- The history with a last checkpoint after it, of the workers' captured states. -/
def checkpointed (c : Codec σ) (ws : List (Write σ)) (scope : Scope) (state : σ) (isPaused : Bool)
    (captured : Dict String Snapshot) (head : String) : Sessions σ :=
  Sessions.after c.json (ws ++ [.checkpoint scope state isPaused (some captured) head])

/-- **Detection plans the last checkpoint**: its state, and every worker's snapshot as it was captured. -/
theorem plan_of_checkpointed (c : Codec σ) (ws : List (Write σ)) (scope : Scope) (state : σ) (isPaused : Bool)
    (captured : Dict String Snapshot) (head : String)
    (hput : (putBound c.json (Sessions.after c.json ws).store.checkpoints scope state none isPaused (some captured)
      head).isSome = true)
    (hnewest : LastIsNewest (checkpointed c ws scope state isPaused captured head)) {newest : Option Row}
    (hn : IsNewest (checkpointed c ws scope state isPaused captured head).store.checkpoints newest) (now : ℤ) :
    ∃ plan, detectUnfinalizedSession c.json (checkpointed c ws scope state isPaused captured head).store newest now =
      .ok (some plan) ∧ plan.state = state ∧ ∀ wid, plan.worktrees.get? wid = captured.get? wid := by
  obtain ⟨t, ht⟩ := Option.isSome_iff_exists.1 hput
  have hinv : HistoryInv c.json (checkpointed c ws scope state isPaused captured head) := historyInv_after c.json _
  have hwrite : checkpointed c ws scope state isPaused captured head =
      (Sessions.after c.json ws).write c.json (.checkpoint scope state isPaused (some captured) head) := by
    rw [checkpointed, Sessions.after, List.foldl_append]
    rfl
  have hafter : checkpointed c ws scope state isPaused captured head =
      ⟨{ (Sessions.after c.json ws).store with checkpoints := t },
        some ⟨scope, defaultId (Sessions.after c.json ws).store.checkpoints scope, state, false⟩⟩ := by
    rw [hwrite, Sessions.write, ht]
  rw [hafter] at hinv hnewest hn ⊢
  -- the row that was written
  rw [putBound, put_eq, insertPut_of_fits (PutArgs.fits_of_none rfl)] at ht
  obtain ⟨-, hrows⟩ := Table.insert_eq_some_iff.1 ht
  generalize hrow : (putRow c.json.sha256 scope _ _ : Row) = row at hrows
  have hmem : row ∈ t.rows := by
    rw [hrows]
    exact List.mem_append_right _ List.mem_cons_self
  have hkey : row.key = (scope, defaultId (Sessions.after c.json ws).store.checkpoints scope) := by
    rw [← hrow]
    rfl
  cases newest with
  | none => exact absurd hn (List.ne_nil_of_mem hmem)
  | some r =>
    have hlast := (hnewest _ rfl).resolve_left Bool.false_ne_true
    have hdetects := hinv.detects_of_newest rfl rfl (fun x hx => (hlast x hx).2) hn now
    have hsame : r = row := Table.eq_of_key hn.1 hmem (((hinv.detects_iff hn.1 rfl rfl now).1 hdetects).trans hkey.symm)
    rw [hsame] at hn ⊢
    have hplan := hinv.detect_some hn.1 now
    rw [if_neg (hlast row hmem).1, planFor] at hplan
    have hstate : c.json.modelValidateJson row.stateJson = some state := by
      rw [← hrow]
      exact c.validate_dump state
    rw [hstate] at hplan
    refine ⟨_, hplan, rfl, fun wid => ?_⟩
    exact get?_deserialize_serialize c (some captured) row (by rw [← hrow, putRow_eq]) (by rw [← hrow, putRow_eq]) wid

/-- **A crash loses no work that was checkpointed.**  After any history of checkpoints, where the last one took every
worker's state and is the newest row, detection plans it whatever row the query returns, and a resume of the plan returns
its state and leaves each worker a worktree on the branch of its own name with the HEAD and the files it had, wherever
every worker can be bound again. -/
theorem recovers_worktrees (c : Codec σ) (g : GitDiff String String) (o : Objects String String String)
    (ignored accepts : String → Bool) (py : Builtins) (pid : ℕ) (roots : Roots String String String) (wids : List String)
    (hwork : ∀ wid ∈ wids, ∃ w, CanCapture g o ignored roots wid w) (captured : Dict String Snapshot)
    (hcapture : captureMap g o ignored wids Dict.empty roots = (.ok captured, roots))
    (ws : List (Write σ)) (scope : Scope) (state : σ) (isPaused : Bool) (head : String)
    (hput : (putBound c.json (Sessions.after c.json ws).store.checkpoints scope state none isPaused (some captured)
      head).isSome = true)
    (hnewest : LastIsNewest (checkpointed c ws scope state isPaused captured head)) (newest : Option Row)
    (hn : IsNewest (checkpointed c ws scope state isPaused captured head).store.checkpoints newest) (now : ℤ)
    (r : Repository) (hhead : o.Has r.head) (hbind : ∀ wid ∈ wids, Repository.Bindable accepts (r.reclaim py) wid) :
    ∃ plan, detectUnfinalizedSession c.json (checkpointed c ws scope state isPaused captured head).store newest now =
        .ok (some plan) ∧
      (r.resume accepts g o py pid plan).1 = .ok state ∧
      ∀ wid ∈ wids, ∃ w checkout, roots wid = some w ∧
        (r.resume accepts g o py pid plan).2.checkouts.get? wid = some ⟨some (chunkBranch wid), false, checkout⟩ ∧
        checkout.head = w.head ∧ checkout.files = w.files := by
  obtain ⟨captured', hmap, hother, hown⟩ := captureMap_ok wids Dict.empty hwork
  have hsame : captured' = captured := by
    rw [hcapture] at hmap
    exact (Except.ok.inj (Prod.mk.inj hmap).1).symm
  rw [hsame] at hother hown
  obtain ⟨plan, hdetect, hstate, hsnapshots⟩ := plan_of_checkpointed c ws scope state isPaused captured head hput hnewest
    hn now
  -- every worker of the plan was captured, and what was captured comes back
  have hplan : ∀ p ∈ plan.worktrees.items, p.1 ∈ wids ∧ captured.get? p.1 = some p.2 := by
    intro p hp
    have hget : captured.get? p.1 = some p.2 := by
      rw [← hsnapshots]
      exact (plan.worktrees.get?_eq_some_iff p.1 p.2).2 hp
    refine ⟨?_, hget⟩
    by_contra hnot
    rw [hother p.1 hnot] at hget
    cases hget
  have hback : ∀ p ∈ plan.worktrees.items, ∀ w, roots p.1 = some w → ComesBack g o w ⟨p.2.head, p.2.diff⟩ := by
    intro p hp w hw
    obtain ⟨hmem, hget⟩ := hplan p hp
    obtain ⟨snapshot, hsnapshot, hcomes⟩ := hown p.1 hmem
    rw [hget] at hsnapshot
    cases hsnapshot
    exact hcomes w hw
  obtain ⟨hok, hrestored⟩ := Repository.rebindWorkers_comesBack pid plan.worktrees.items (r.reclaim py) plan.worktrees.nodup
    hhead (fun p hp => by
      obtain ⟨hmem, -⟩ := hplan p hp
      obtain ⟨w, hroot, -⟩ := hwork p.1 hmem
      exact ⟨hbind p.1 hmem, w, hback p hp w hroot⟩)
  have hresume : r.resume accepts g o py pid plan =
      (.ok plan.state, (Repository.rebindWorkers accepts g o pid plan.worktrees.items (r.reclaim py)).2) := by
    unfold Repository.resume
    generalize hrun : Repository.rebindWorkers accepts g o pid plan.worktrees.items (r.reclaim py) = out at hok
    obtain ⟨result, r'⟩ := out
    dsimp only at hok
    rw [hok]
  refine ⟨plan, hdetect, by rw [hresume, hstate], fun wid hwid => ?_⟩
  obtain ⟨w, hroot, -⟩ := hwork wid hwid
  obtain ⟨snapshot, hsnapshot, hcomes⟩ := hown wid hwid
  have hmem : (wid, snapshot) ∈ plan.worktrees.items := by
    refine (plan.worktrees.get?_eq_some_iff wid snapshot).1 ?_
    rw [hsnapshots, hsnapshot]
  obtain ⟨checkout, hchead, hcfiles, hget⟩ := hrestored (wid, snapshot) hmem w (hcomes w hroot)
  refine ⟨w, checkout, hroot, ?_, hchead, hcfiles⟩
  rw [hresume]
  exact hget

/-! ## A worker with an edit, a crash, and a resume -/

/-- The worktree with the edit when the process of its worker has died. -/
def editedCrash : Repository where
  site := { worktrees := Dict.empty.set "worker-1" ⟨1, none⟩ }
  branches := Function.update (fun _ => none) "chunk/worker-1" (some firstCommit)
  head := firstCommit
  primaryBranch := some "main"
  checkouts := Dict.empty.set "worker-1" ⟨some "chunk/worker-1", false, edited⟩

def editedSnapshots : Dict String Snapshot := Dict.empty.set "worker-1" ⟨"3f1c2a", editText⟩

theorem capturable_edited : CanCapture gitEdit store (fun _ => false) (fun _ => some edited) "worker-1" edited :=
  ⟨rfl, ⟨rfl, by decide⟩,
    ⟨rfl, by decide +kernel, editText, GitDiff.render_ofText (by decide +kernel) _ _, by decide +kernel⟩⟩

theorem captureMap_edited : captureMap gitEdit store (fun _ => false) ["worker-1"] Dict.empty (fun _ => some edited) =
    (.ok editedSnapshots, fun _ => some edited) := by
  obtain ⟨hroot, hhas, hcapturable⟩ := capturable_edited
  have hdiff : (edited.addIntentAll (fun _ => false)).diff = Patch.between firstTree editedTree := by decide +kernel
  have hrender : gitEdit.render (edited.addIntentAll (fun _ => false)).diff = some editText := by
    rw [hdiff]
    exact GitDiff.render_ofText (by decide +kernel) _ _
  have hround : RoundTrips gitEdit store (fun _ => false) (fun _ => some edited) "worker-1" edited :=
    roundTrips_of_capturable gitEdit store hroot hhas hcapturable
  have hcapture : (capture gitEdit store (fun _ => false) (fun _ => some edited) "worker-1").1 =
      .ok ⟨"3f1c2a", universalNewlines editText⟩ := congrArg Prod.fst (capture_of_some gitEdit store hroot hrender)
  rw [universalNewlines_eq_self (by decide +kernel)] at hcapture
  have hboth : capture gitEdit store (fun _ => false) (fun _ => some edited) "worker-1" =
      (.ok ⟨"3f1c2a", editText⟩, fun _ => some edited) := Prod.ext hcapture hround.1
  rw [captureMap, hboth]
  rfl

/-- The row of the checkpoint. -/
def editedRow : Row := putRow id ⟨"p", "t"⟩ "cp_0" ⟨"running", some "3f1c2a", false, none,
  (serializeWorktreeState plainCodec.json (some editedSnapshots)).1,
  (serializeWorktreeState plainCodec.json (some editedSnapshots)).2⟩

theorem rows_edited :
    (checkpointed plainCodec [] ⟨"p", "t"⟩ "running" false editedSnapshots "3f1c2a").store.checkpoints.rows = [editedRow] := rfl

theorem recovers_worktrees_edited :
    ∃ plan, detectUnfinalizedSession plainCodec.json
        (checkpointed plainCodec [] ⟨"p", "t"⟩ "running" false editedSnapshots "3f1c2a").store (some editedRow) 0 =
          .ok (some plan) ∧
      (editedCrash.resume (fun _ => true) gitEdit store Builtins.decimal 2 plan).1 = .ok "running" ∧
      ∀ wid ∈ ["worker-1"], ∃ w checkout, (some edited : Option WorkCheckout) = some w ∧
        (editedCrash.resume (fun _ => true) gitEdit store Builtins.decimal 2 plan).2.checkouts.get? wid =
          some ⟨some (chunkBranch wid), false, checkout⟩ ∧ checkout.head = w.head ∧ checkout.files = w.files := by
  refine recovers_worktrees plainCodec gitEdit store (fun _ => false) (fun _ => true) Builtins.decimal 2
    (fun _ => some edited) ["worker-1"] (fun wid hwid => ?_) editedSnapshots captureMap_edited [] ⟨"p", "t"⟩ "running" false
    "3f1c2a" rfl (fun w hw => Or.inr (fun r hr => ?_)) (some editedRow) ⟨?_, fun x hx => ?_⟩ 0
    editedCrash ⟨rfl, by decide⟩
    (fun wid hwid => ?_)
  · rw [List.mem_singleton.1 hwid]
    exact ⟨edited, capturable_edited⟩
  · have hw' : w = ⟨⟨"p", "t"⟩, "cp_0", "running", false⟩ := (Option.some.inj hw).symm
    rw [rows_edited, List.mem_singleton] at hr
    rw [hr, hw']
    exact ⟨by decide, fun hne => absurd rfl hne⟩
  · rw [rows_edited]
    exact List.mem_singleton_self _
  · rw [rows_edited, List.mem_singleton] at hx
    rw [hx]
    exact Or.inr ⟨rfl, le_refl _⟩
  · rw [List.mem_singleton.1 hwid]
    exact ⟨⟨by decide +kernel, fun hout => absurd hout (by decide +kernel), rfl⟩, by decide +kernel⟩

end Recovery
end DevHarness
