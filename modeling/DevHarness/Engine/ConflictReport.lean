import DevHarness.Engine.Integrator
/-!
# ConflictReport — the file and the two chunks a conflict names (`engine/integrator.py`)

`_other_chunk` looks the file up in the record of the merged chunks, oldest first.  The record has a renamed file under
its new name only, so a branch can have touched a file it is not on record for.
-/
namespace DevHarness
namespace Engine
namespace Integrator

open Lib.Git

variable {B : Type} [DecidableEq B]

abbrev Snapshot (B : Type) := Commit (Lib.Tree String B) String

/-- The merges of the chunks, one after another: of each, what is read off its merge base and its branch. -/
def branchFiles (files : Snapshot B → Snapshot B → Finset String) (m : GitMerger B) : GitRepo B → List Chunk →
    List (String × Finset String)
  | _, [] => []
  | r, chunk :: chunks =>
    match r.mergeBase (chunkBranch chunk.chunkId), r.branches (chunkBranch chunk.chunkId),
      r.merge m (chunkBranch chunk.chunkId) with
    | some base, some tip, .done r' => (chunk.chunkId, files base tip) :: branchFiles files m r' chunks
    | _, _, _ => []

/-- The files each branch touched. -/
def touchedFiles (m : GitMerger B) : GitRepo B → List Chunk → List (String × Finset String) :=
  branchFiles (fun base tip => Lib.Tree.diff base.tree tip.tree) m

/-- The files each branch is on record for. -/
def recordedFiles (m : GitMerger B) : GitRepo B → List Chunk → List (String × Finset String) := branchFiles (nameOnly m) m

def earliest (file : String) (touched : List (String × Finset String)) : Option String :=
  (touched.find? (fun p => file ∈ p.2)).map Prod.fst

def latest (file : String) (touched : List (String × Finset String)) : Option String := earliest file touched.reverse

/-- **A conflict met** when a branch's turn comes: a merge that conflicts, or one refused over a conflict that was there
before, which is then aborted. -/
def MeetsConflict (m : GitMerger B) (r : GitRepo B) (branch : String) (r' : GitRepo B) : Prop :=
  r.merge m branch = .conflicted r' ∨
    r.merge m branch = .refused ∧ r' = r ∧ r.unmerged.Nonempty ∧ r.mergeBase branch ≠ none ∧ r.mergeAbort ≠ none

/-- **The report is of a conflicting file and of the last chunk merged that touched it**, the primary branch when none
did, at every conflict the merges meet. -/
def ReportsLatest (m : GitMerger B) (start : GitRepo B) (chunks : List Chunk) : Prop :=
  ∀ before c after r r', chunks = before ++ c :: after → start.mergeAll m (branchesOf before) = some r →
    MeetsConflict m r (chunkBranch c.chunkId) r' → ∃ file ∈ r'.unmerged, (integrate m start chunks).1 =
      .error (.conflict file ((latest file (touchedFiles m start before)).getD (primaryBranch start)) c.chunkId)

/-- The chunk has an entry with the file. -/
def Has (file : String) (entries : List (String × Finset String)) (chunkId : String) : Prop :=
  ∃ files, (chunkId, files) ∈ entries ∧ file ∈ files

/-- The chunk's is the last entry with the file. -/
def HasLast (file : String) (entries : List (String × Finset String)) (chunkId : String) : Prop :=
  ∃ pre files post, entries = pre ++ (chunkId, files) :: post ∧ file ∈ files ∧ ∀ e ∈ post, file ∉ e.2

/-- **One merged chunk on record for a file**, the last that touched it; it may be missing from the record only where its id
is the name of the primary branch. -/
structure OneOnRecord (m : GitMerger B) (start : GitRepo B) (before : List Chunk) (file : String) : Prop where
  last : ∀ chunkId, Has file (recordedFiles m start before) chunkId → HasLast file (touchedFiles m start before) chunkId
  recorded : ∀ chunkId, HasLast file (touchedFiles m start before) chunkId →
    Has file (recordedFiles m start before) chunkId ∨ chunkId = primaryBranch start

/-! ## What is reported -/

omit [DecidableEq B] in
theorem primaryBranch_moveTo (r : GitRepo B) (c : Snapshot B) (on : Finset String) :
    primaryBranch (r.moveTo c on) = primaryBranch r := by
  unfold primaryBranch Repo.moveTo Repo.setHead
  cases r.head <;> rfl

theorem primaryBranch_merge {m : GitMerger B} {r r' : GitRepo B} {branch : String} (h : r.merge m branch = .done r') :
    primaryBranch r' = primaryBranch r := by
  obtain ⟨h₀, t, -, -, -, -, hcase⟩ := Repo.merge_eq_done h
  rcases hcase with ⟨rfl, -⟩ | ⟨c, rfl, -⟩
  · rfl
  · exact primaryBranch_moveTo r c _

theorem primaryBranch_mergeAll {m : GitMerger B} : ∀ (names : List String) {r r' : GitRepo B},
    r.mergeAll m names = some r' → primaryBranch r' = primaryBranch r
  | [], r, r', h => by
    cases h
    rfl
  | name :: names, r, r', h => by
    rw [Repo.mergeAll] at h
    cases hm : r.merge m name with
    | refused => rw [hm] at h; cases h
    | conflicted r₁ => rw [hm] at h; cases h
    | done r₁ =>
      rw [hm] at h
      exact (primaryBranch_mergeAll names h).trans (primaryBranch_merge hm)

theorem MeetsConflict.primaryBranch_eq {m : GitMerger B} {r r' : GitRepo B} {branch : String}
    (h : MeetsConflict m r branch r') : primaryBranch r' = primaryBranch r := by
  rcases h with h | ⟨-, rfl, -⟩
  · obtain ⟨_, _, _, _, -, -, -, -, -, -, -, rfl⟩ := Repo.merge_eq_conflicted h
    rfl
  · rfl

theorem MeetsConflict.nonempty {m : GitMerger B} {r r' : GitRepo B} {branch : String} (h : MeetsConflict m r branch r') :
    r'.unmerged.Nonempty := by
  rcases h with h | ⟨-, rfl, hne, -⟩
  · obtain ⟨_, _, _, _, -, -, -, -, -, hne, -, rfl⟩ := Repo.merge_eq_conflicted h
    exact hne
  · exact hne

theorem MeetsConflict.changedFiles_ne_none {m : GitMerger B} {r r' : GitRepo B} {branch : String}
    (h : MeetsConflict m r branch r') : changedFiles m r branch ≠ none := by
  rw [Ne, changedFiles_eq_none_iff]
  rcases h with h | ⟨-, -, -, hbase, -⟩
  · exact Repo.mergeBase_of_merge h (by simp)
  · exact hbase

theorem MeetsConflict.mergeAbort_ne_none {m : GitMerger B} {r r' : GitRepo B} {branch : String}
    (h : MeetsConflict m r branch r') : r'.mergeAbort ≠ none := by
  rcases h with h | ⟨-, rfl, -, -, hab⟩
  · rw [Repo.mergeAbort_of_conflicted h]
    simp
  · exact hab

theorem otherChunk_eq (file : String) (fallback : String) : ∀ (touched : List (String × Finset String)),
    otherChunk file touched fallback = (earliest file touched).getD fallback
  | [] => rfl
  | (chunkId, files) :: touched => by
    rw [otherChunk, earliest, List.find?_cons]
    by_cases hf : file ∈ files
    · rw [if_pos hf, decide_eq_true hf]
      rfl
    · rw [if_neg hf, decide_eq_false hf]
      exact otherChunk_eq file fallback touched

theorem mergeFailed_of_conflict {m : GitMerger B} {h₀ : Snapshot B} {touched : List (String × Finset String)} {c : Chunk}
    {r r' : GitRepo B} (h : MeetsConflict m r (chunkBranch c.chunkId) r') :
    (mergeFailed h₀ touched c r').1 = .error (.conflict (r'.unmerged.min' h.nonempty)
      (otherChunk (r'.unmerged.min' h.nonempty) touched (primaryBranch r)) c.chunkId) := by
  rw [mergeFailed, dif_pos h.nonempty, ← h.primaryBranch_eq]
  cases hab : r'.mergeAbort with
  | none => exact absurd hab h.mergeAbort_ne_none
  | some r₀ => rfl

theorem branchFiles_cons {m : GitMerger B} {r r' : GitRepo B} {chunk : Chunk} {changed : Finset String}
    (hc : changedFiles m r (chunkBranch chunk.chunkId) = some changed)
    (hm : r.merge m (chunkBranch chunk.chunkId) = .done r') (chunks : List Chunk) :
    recordedFiles m r (chunk :: chunks) = (chunk.chunkId, changed) :: recordedFiles m r' chunks := by
  unfold changedFiles at hc
  unfold recordedFiles
  rw [branchFiles, hm]
  cases hb : r.mergeBase (chunkBranch chunk.chunkId) with
  | none => rw [hb] at hc; cases hc
  | some base =>
    cases ht : r.branches (chunkBranch chunk.chunkId) with
    | none => rw [hb, ht] at hc; cases hc
    | some tip =>
      rw [hb, ht] at hc
      cases hc
      rfl

/-- **The loop at a conflict**: the least conflicting file, and the first chunk on record for it. -/
theorem integrateFrom_of_conflict {m : GitMerger B} {h₀ : Snapshot B} {c : Chunk} {after : List Chunk} {r r' : GitRepo B}
    (h : MeetsConflict m r (chunkBranch c.chunkId) r') : ∀ (before : List Chunk) (merged : List String)
      (touched : List (String × Finset String)) (start : GitRepo B), start.mergeAll m (branchesOf before) = some r →
      (integrateFrom m h₀ (before ++ c :: after) merged touched start).1 =
        .error (.conflict (r'.unmerged.min' h.nonempty) (otherChunk (r'.unmerged.min' h.nonempty)
          (touched ++ recordedFiles m start before) (primaryBranch r)) c.chunkId)
  | [], merged, touched, start, hr => by
    cases hr
    rw [List.nil_append, integrateFrom, recordedFiles, branchFiles, List.append_nil]
    cases hc : changedFiles m r (chunkBranch c.chunkId) with
    | none => exact absurd hc h.changedFiles_ne_none
    | some changed =>
      dsimp only
      have hfailed : (mergeFailed h₀ touched c r').1 = _ := mergeFailed_of_conflict h
      rcases id h with hm | ⟨hm, rfl, -⟩
      · rw [hm]
        exact hfailed
      · rw [hm]
        exact hfailed
  | d :: before, merged, touched, start, hr => by
    rw [branchesOf, List.map_cons, Repo.mergeAll] at hr
    cases hm : start.merge m (chunkBranch d.chunkId) with
    | refused => rw [hm] at hr; cases hr
    | conflicted r₁ => rw [hm] at hr; cases hr
    | done r₁ =>
      rw [hm] at hr
      rw [List.cons_append, integrateFrom]
      cases hc : changedFiles m start (chunkBranch d.chunkId) with
      | none => exact absurd (changedFiles_eq_none_iff.1 hc) (Repo.mergeBase_of_merge hm (by simp))
      | some changed =>
        dsimp only
        rw [hm]
        dsimp only
        rw [integrateFrom_of_conflict h before _ _ r₁ hr, branchFiles_cons hc hm, List.append_assoc]
        rfl

theorem integrate_of_conflict {m : GitMerger B} {start r r' : GitRepo B} {before after : List Chunk} {c : Chunk}
    (hr : start.mergeAll m (branchesOf before) = some r) (h : MeetsConflict m r (chunkBranch c.chunkId) r') :
    (integrate m start (before ++ c :: after)).1 = .error (.conflict (r'.unmerged.min' h.nonempty)
      ((earliest (r'.unmerged.min' h.nonempty) (recordedFiles m start before)).getD (primaryBranch start)) c.chunkId) := by
  unfold integrate
  cases hh : start.headCommit with
  | some h₀ =>
    dsimp only
    rw [integrateFrom_of_conflict h before [] [] start hr, List.nil_append, otherChunk_eq, primaryBranch_mergeAll _ hr]
  | none =>
    -- nothing merges into an unborn branch, and nothing has a base with it
    exfalso
    have hbase : ∀ branch, start.mergeBase branch = none := fun branch => by rw [Repo.mergeBase, hh]
    cases before with
    | nil =>
      cases hr
      exact h.changedFiles_ne_none (changedFiles_eq_none_iff.2 (hbase _))
    | cons d before =>
      rw [branchesOf, List.map_cons, Repo.mergeAll_cons_of_unborn hh] at hr
      cases hr

/-! ## Who is on record -/

omit [DecidableEq B] in
theorem latest_eq_some_iff {file : String} {touched : List (String × Finset String)} {chunkId : String} :
    latest file touched = some chunkId ↔ HasLast file touched chunkId := by
  rw [latest, earliest, Option.map_eq_some_iff]
  constructor
  · rintro ⟨⟨d, files⟩, hfind, rfl⟩
    obtain ⟨hfile, as, bs, he, hnone⟩ := List.find?_eq_some_iff_append.1 hfind
    refine ⟨bs.reverse, files, as.reverse, ?_, by simpa using hfile, fun e hm => by simpa using hnone e (by simpa using hm)⟩
    rw [← List.reverse_reverse touched, he]
    simp
  · rintro ⟨pre, files, post, rfl, hfile, hnone⟩
    refine ⟨(chunkId, files), List.find?_eq_some_iff_append.2 ⟨by simpa using hfile, post.reverse, pre.reverse, by simp,
      fun e hm => ?_⟩, rfl⟩
    simpa using hnone e (by simpa using hm)

omit [DecidableEq B] in
theorem latest_eq_none_iff {file : String} {touched : List (String × Finset String)} :
    latest file touched = none ↔ ∀ e ∈ touched, file ∉ e.2 := by
  simp [latest, earliest]

omit [DecidableEq B] in
theorem HasLast.unique {file : String} {touched : List (String × Finset String)} {c d : String}
    (hc : HasLast file touched c) (hd : HasLast file touched d) : c = d :=
  Option.some.inj ((latest_eq_some_iff.2 hc).symm.trans (latest_eq_some_iff.2 hd))

omit [DecidableEq B] in
theorem HasLast.append {file : String} {touched : List (String × Finset String)} {chunkId : String}
    (h : HasLast file touched chunkId) (before : List (String × Finset String)) :
    HasLast file (before ++ touched) chunkId := by
  obtain ⟨pre, files, post, rfl, hfile, hnone⟩ := h
  exact ⟨before ++ pre, files, post, (List.append_assoc _ _ _).symm, hfile, hnone⟩

/-- An entry of the record beside the entry of what was touched: the same chunk, and none but touched files. -/
def Under (touched recorded : String × Finset String) : Prop := recorded.1 = touched.1 ∧ recorded.2 ⊆ touched.2

omit [DecidableEq B] in
theorem exists_under {touched recorded : List (String × Finset String)} (h : List.Forall₂ Under touched recorded)
    {e : String × Finset String} (he : e ∈ recorded) : ∃ f ∈ touched, Under f e := by
  induction h with
  | nil => cases he
  | cons hfe _ ih =>
    rcases List.mem_cons.1 he with rfl | he
    · exact ⟨_, List.mem_cons_self, hfe⟩
    · obtain ⟨f, hf, hunder⟩ := ih he
      exact ⟨f, List.mem_cons_of_mem _ hf, hunder⟩

/-- No chunk touches the file twice. -/
def Once (file : String) (touched : List (String × Finset String)) : Prop :=
  ∀ pre e post, touched = pre ++ e :: post → file ∈ e.2 → ∀ f ∈ post, f.1 = e.1 → file ∉ f.2

omit [DecidableEq B] in
/-- **The first on record and the last to touch** are one exactly when no other is on record. -/
theorem earliest_eq_latest_iff {file : String} {recorded touched : List (String × Finset String)}
    (hunder : List.Forall₂ Under touched recorded) (honce : Once file touched) (fallback : String) :
    (earliest file recorded).getD fallback = (latest file touched).getD fallback ↔
      (∀ chunkId, Has file recorded chunkId → HasLast file touched chunkId) ∧
        ∀ chunkId, HasLast file touched chunkId → Has file recorded chunkId ∨ chunkId = fallback := by
  cases hfirst : earliest file recorded with
  | none =>
    have hnone : ∀ chunkId, ¬ Has file recorded chunkId := by
      rintro chunkId ⟨files, hm, hfile⟩
      rw [earliest, Option.map_eq_none_iff, List.find?_eq_none] at hfirst
      exact hfirst _ hm (by simpa using hfile)
    rw [and_iff_right fun chunkId h => absurd h (hnone chunkId)]
    cases hlast : latest file touched with
    | none =>
      refine iff_of_true rfl fun chunkId h => ?_
      rw [latest_eq_some_iff.2 h] at hlast
      cases hlast
    | some d =>
      have hd := latest_eq_some_iff.1 hlast
      constructor
      · rintro rfl chunkId h
        exact Or.inr (h.unique hd)
      · exact fun h => ((h d hd).resolve_left (hnone d)).symm
  | some c =>
    rw [earliest, Option.map_eq_some_iff] at hfirst
    obtain ⟨⟨c', files⟩, hfind, rfl⟩ := hfirst
    obtain ⟨hin, before, after, rfl, hbefore⟩ := List.find?_eq_some_iff_append.1 hfind
    have hfile : file ∈ files := by simpa using hin
    -- the entry of the first on record among what was touched
    obtain ⟨⟨c, touchedFiles⟩, touchedAfter, ⟨hid, hsub⟩, hafter, hdrop⟩ :=
      List.forall₂_cons_right_iff.1 (List.forall₂_drop_append _ before ((c', files) :: after) hunder)
    dsimp only at hid hsub
    subst hid
    have hsplit : touched = touched.take before.length ++ (c', touchedFiles) :: touchedAfter := by
      rw [← hdrop, List.take_append_drop]
    cases hlater : latest file touchedAfter with
    | some d =>
      -- one that touched the file later: another chunk
      have hd := latest_eq_some_iff.1 hlater
      have hlast : HasLast file touched d := by
        rw [hsplit, List.append_cons]
        exact hd.append _
      have hne : d ≠ c' := by
        obtain ⟨pre, f, post, he, hf, -⟩ := hd
        rintro rfl
        exact honce _ _ _ hsplit (hsub hfile) (d, f) (by simp [he]) rfl hf
      rw [latest_eq_some_iff.2 hlast]
      refine iff_of_false (fun h => hne h.symm) fun h => hne (hlast.unique (h.1 c' ⟨files, by simp, hfile⟩))
    | none =>
      have hnone := latest_eq_none_iff.1 hlater
      have hlast : HasLast file touched c' := ⟨_, touchedFiles, touchedAfter, hsplit, hsub hfile, hnone⟩
      rw [latest_eq_some_iff.2 hlast]
      refine iff_of_true rfl ⟨fun d hd => ?_, fun d hd => Or.inl ?_⟩
      · obtain ⟨f, hm, hf⟩ := hd
        rw [List.mem_append, List.mem_cons] at hm
        rcases hm with hm | hm | hm
        · exact absurd hf (by simpa using hbefore _ hm)
        · rw [(Prod.mk.inj hm).1]
          exact hlast
        · obtain ⟨g, hg, -, hfg⟩ := exists_under hafter hm
          exact absurd (hfg hf) (hnone g hg)
      · rw [hd.unique hlast]
        exact ⟨files, by simp, hfile⟩

theorem under_branchFiles (m : GitMerger B) : ∀ (chunks : List Chunk) (r : GitRepo B),
    List.Forall₂ Under (touchedFiles m r chunks) (recordedFiles m r chunks)
  | [], _ => .nil
  | chunk :: chunks, r => by
    unfold touchedFiles recordedFiles
    rw [branchFiles, branchFiles]
    split
    · exact .cons ⟨rfl, Finset.sdiff_subset⟩ (under_branchFiles m chunks _)
    · exact .nil

/-- A branch that HEAD reaches has nothing to merge, so it touches nothing. -/
theorem touches_nothing (m : GitMerger B) {chunkId : String} : ∀ (chunks : List Chunk) (r : GitRepo B),
    r.Reached (chunkBranch chunkId) → ∀ e ∈ touchedFiles m r chunks, e.1 = chunkId → e.2 = ∅
  | [], _, _, _, he, _ => by cases he
  | chunk :: chunks, r, hreached, e, he, hid => by
    unfold touchedFiles at he
    rw [branchFiles] at he
    split at he
    · rename_i base tip r' hbase htip hmerge
      rcases List.mem_cons.1 he with rfl | he
      · obtain ⟨h, t, hh, ht, hreach⟩ := hreached
        dsimp only at hid
        rw [← hid] at ht
        rw [Repo.mergeBase_of_reach hh ht hreach] at hbase
        rw [ht] at htip
        cases hbase
        cases htip
        ext p
        simp
      · exact touches_nothing m chunks r' ((Repo.reached_of_merge hmerge).2 _ hreached) e he hid
    · cases he

theorem once_touchedFiles (m : GitMerger B) (file : String) : ∀ (chunks : List Chunk) (r : GitRepo B),
    Once file (touchedFiles m r chunks)
  | [], _, pre, _, _, he, _, _, _, _ => by
    cases pre <;> cases he
  | chunk :: chunks, r, pre, e, post, he, hfile, f, hf, hid => by
    unfold touchedFiles at he
    rw [branchFiles] at he
    split at he
    · rename_i base tip r' hbase htip hmerge
      cases pre with
      | nil =>
        obtain ⟨rfl, hrest⟩ := List.cons.inj he
        rw [← hrest] at hf
        rw [touches_nothing m chunks r' (Repo.reached_of_merge hmerge).1 f hf hid]
        exact Finset.notMem_empty file
      | cons _ pre => exact once_touchedFiles m file chunks r' pre e post (List.cons.inj he).2 hfile f hf hid
    · cases pre <;> cases he

theorem oneOnRecord_iff {m : GitMerger B} {start : GitRepo B} {before : List Chunk} {file : String} :
    (earliest file (recordedFiles m start before)).getD (primaryBranch start) =
      (latest file (touchedFiles m start before)).getD (primaryBranch start) ↔ OneOnRecord m start before file := by
  rw [earliest_eq_latest_iff (under_branchFiles m before start) (once_touchedFiles m file before start)]
  exact ⟨fun h => ⟨h.1, h.2⟩, fun h => ⟨h.last, h.recorded⟩⟩

/-- `main` at the first version of `x`; `chunk/b` goes on from `chunk/a`, and `chunk/c` conflicts with both. -/
def threeVersions : GitRepo String :=
  let base : Snapshot String := .mk (Lib.Tree.single "x" "0") "init" []
  let a : Snapshot String := .mk (Lib.Tree.single "x" "1") "chunk a" [base]
  let b : Snapshot String := .mk (Lib.Tree.single "x" "2") "chunk b" [a]
  let c : Snapshot String := .mk (Lib.Tree.single "x" "3") "chunk c" [base]
  { branches := fun n => if n = "main" then some base else if n = "chunk/a" then some a
      else if n = "chunk/b" then some b else if n = "chunk/c" then some c else none
    head := .branch "main"
    index := base.tree
    unmerged := ∅
    mergeHead := none
    files := base.tree }

def conflictsOnX : GitMerger String :=
  ⟨fun h _ => .conflict h.tree {"x"} (Finset.singleton_nonempty "x"), fun _ name => "Merge branch '" ++ name ++ "'",
    fun _ _ => ∅⟩

end Integrator
end Engine
end DevHarness
