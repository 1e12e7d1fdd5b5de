import DevHarness.Engine.DeveloperWrites
import DevHarness.Lib.PathText
/-!
# WorktreeManager — which worktrees `destroy` removes (`vcs/worktree.py`)

The containment check compares texts: that of the resolved path must begin with that of the resolved worktrees root.  Git
then removes the worktree at the real path of its argument.  The repository is given by an absolute path.
-/
namespace DevHarness
namespace Vcs

open Lib
open Engine (PyStr py nameable isAbsolute)

def slash : Nat := '/'.toNat

/-- A name as a directory lists it. -/
structure FileName where
  text : PyStr
  nonempty : text ≠ []
  noSlash : slash ∉ text
  deriving DecidableEq

abbrev FileTree := Disk FileName PyStr

def takenName (name : FileName) : Bool := nameable name.text

/-- One part of a path as pathlib reads it: empty parts and `.` are dropped. -/
def pathStep (part : PyStr) : Option (Step FileName) :=
  if h : part ≠ [] ∧ slash ∉ part then
    if part = py "." then none else if part = py ".." then some .up else some (.down ⟨part, h.1, h.2⟩)
  else none

def pathSteps (path : PyStr) : List (Step FileName) := (path.splitOn slash).filterMap pathStep

/-- `self.worktrees_root`. -/
def worktreesRoot (repo : List (Step FileName)) : List (Step FileName) := repo ++ pathSteps (py ".dev-harness/worktrees")

/-- `self.worktrees_root / worker_id`: an absolute id takes its place. -/
def worktreePath (repo : List (Step FileName)) (workerId : PyStr) : List (Step FileName) :=
  if isAbsolute workerId = true then pathSteps workerId else worktreesRoot repo ++ pathSteps workerId

def stepText : Step FileName → PyStr
  | .up => py ".."
  | .down name => name.text

/-- `str` of an absolute path. -/
def pathText (steps : List (Step FileName)) : PyStr :=
  if steps = [] then [slash] else written slash (steps.map stepText)

def resolved (d : FileTree) (steps : List (Step FileName)) : Except ResolveError (List FileName) :=
  d.resolve takenName ⟨true, steps⟩

/-- `Path.exists`. -/
def pathExists (d : FileTree) (steps : List (Step FileName)) : Bool :=
  match d.walk 40 steps [] with
  | .found _ => true
  | _ => false

structure VcsError where
  message : PyStr
  remediation : String

/-- Git, as far as `worktree remove --force` goes. -/
structure Git where
  -- the real paths of the worktrees it takes this for: linked, registered, not locked
  removable : List (List FileName)
  -- whether a removal goes through once begun
  completes : List FileName → Bool
  stderr : PyStr → PyStr

/-- Whether the command succeeds, and the directories it has gone at. -/
def Git.worktreeRemove (git : Git) (d : FileTree) (steps : List (Step FileName)) : Bool × List (List FileName) :=
  match realPath d.links takenName ⟨true, steps⟩ with
  | .reached place => if place ∈ git.removable then (git.completes place, [place]) else (false, [])
  | _ => (false, [])

inductive Raised where
  | vcs (e : VcsError)
  -- what `resolve` raises
  | unresolved (e : ResolveError)

structure Destroyed where
  outcome : Except Raised Unit
  acted : List (List FileName)

def refusal (path : PyStr) : VcsError :=
  ⟨py "refusing to remove worktree outside harness root: " ++ path, "Only harness-created worktrees may be removed."⟩

def gitFailed (git : Git) (path : PyStr) : VcsError :=
  ⟨py "git worktree remove --force " ++ path ++ py " failed: " ++ git.stderr path,
    "Inspect the git repository state and retry the operation."⟩

/-- `str(place).startswith(str(root))`. -/
def startsWith (root place : List FileName) : Bool :=
  (pathText (Disk.stepsTo root)).isPrefixOf (pathText (Disk.stepsTo place))

/-- `WorktreeManager.destroy`. -/
def destroy (git : Git) (d : FileTree) (repo : List (Step FileName)) (workerId : PyStr) : Destroyed :=
  let path := worktreePath repo workerId
  match resolved d path with
  | .error e => ⟨.error (.unresolved e), []⟩
  | .ok place => match resolved d (worktreesRoot repo) with
    | .error e => ⟨.error (.unresolved e), []⟩
    | .ok root =>
      if startsWith root place = false then ⟨.error (.vcs (refusal (pathText path))), []⟩
      else if pathExists d path = true then match git.worktreeRemove d path with
        | (true, acted) => ⟨.ok (), acted⟩
        | (false, acted) => ⟨.error (.vcs (gitFailed git (pathText path))), acted⟩
      else ⟨.ok (), []⟩

/-! ## What the check is for -/

def StrictlyInside (root place : List FileName) : Prop := root <:+ place ∧ place ≠ root

/-- At or under a directory next to the root whose name goes on where the root's ends. -/
def Beside (root place : List FileName) : Prop :=
  ∃ name up longer x, root = name :: up ∧ longer :: up <:+ place ∧ longer.text = name.text ++ x ∧ x ≠ []

/-- **Refused with a `VcsError`, or nothing gone at but what is strictly inside the root.** -/
def KeepsInside (d : FileTree) (repo : List (Step FileName)) (r : Destroyed) : Prop :=
  (∃ e, r.outcome = .error (.vcs e) ∧ r.acted = []) ∨
    ∀ place ∈ r.acted, ∃ root, resolved d (worktreesRoot repo) = .ok root ∧ StrictlyInside root place

/-- **The id leads astray**: to a worktree git removes that is the root itself, or beside it. -/
def Stray (git : Git) (d : FileTree) (repo : List (Step FileName)) (workerId : PyStr) : Prop :=
  ∃ root place, resolved d (worktreesRoot repo) = .ok root ∧
    realPath d.links takenName ⟨true, worktreePath repo workerId⟩ = .reached place ∧
    pathExists d (worktreePath repo workerId) = true ∧ place ∈ git.removable ∧ (place = root ∨ Beside root place)

/-! ## The check, on names -/

theorem stepsTo_eq_nil {path : List FileName} : Disk.stepsTo path = [] ↔ path = [] := by
  simp [Disk.stepsTo]

theorem texts_stepsTo (path : List FileName) : (Disk.stepsTo path).map stepText = (path.map FileName.text).reverse := by
  rw [Disk.stepsTo, List.map_map, ← List.map_reverse]
  rfl

theorem pathText_stepsTo {path : List FileName} (h : path ≠ []) :
    pathText (Disk.stepsTo path) = written slash (path.map FileName.text).reverse := by
  rw [pathText, if_neg (fun hn => h (stepsTo_eq_nil.1 hn)), texts_stepsTo]

theorem noSlash_texts (path : List FileName) : ∀ n ∈ (path.map FileName.text).reverse, slash ∉ n := by
  intro n hn
  obtain ⟨name, -, rfl⟩ := List.mem_map.1 (List.mem_reverse.1 hn)
  exact name.noSlash

theorem FileName.text_injective : Function.Injective FileName.text := by
  rintro ⟨a, ha, ha'⟩ ⟨b, hb, hb'⟩ h
  dsimp only at h
  subst h
  rfl

theorem texts_suffix_iff {root place : List FileName} :
    (root.map FileName.text).reverse <+: (place.map FileName.text).reverse ↔ root <:+ place := by
  rw [List.reverse_prefix]
  constructor
  · rintro ⟨before, h⟩
    obtain ⟨a, b, rfl, -, hb⟩ := List.map_eq_append_iff.1 h.symm
    rw [FileName.text_injective.list_map hb]
    exact List.suffix_append a root
  · rintro ⟨before, rfl⟩
    rw [List.map_append]
    exact List.suffix_append _ _

/-- The two texts of `Beside`: the last name of the root goes on. -/
theorem beside_texts_iff {root place : List FileName} :
    (∃ names n x later, (root.map FileName.text).reverse = names ++ [n] ∧
      (place.map FileName.text).reverse = names ++ (n ++ x) :: later ∧ x ≠ []) ↔ Beside root place := by
  constructor
  · rintro ⟨names, n, x, later, hroot, hplace, hx⟩
    rw [List.reverse_eq_iff, List.reverse_append] at hroot
    rw [List.reverse_eq_iff, List.reverse_append, List.reverse_cons, List.append_assoc] at hplace
    obtain ⟨name, up, rfl, hname, hup⟩ := List.map_eq_cons_iff.1 hroot
    obtain ⟨a, b, hsplit, -, hb⟩ := List.map_eq_append_iff.1 hplace
    obtain ⟨longer, up', rfl, hlonger, hup'⟩ := List.map_eq_cons_iff.1 hb
    refine ⟨name, up, longer, x, rfl, ?_, by rw [hlonger, hname], hx⟩
    rw [hsplit, FileName.text_injective.list_map (hup.trans hup'.symm)]
    exact List.suffix_append a _
  · rintro ⟨name, up, longer, x, rfl, ⟨before, hplace⟩, htext, hx⟩
    refine ⟨(up.map FileName.text).reverse, name.text, x, (before.map FileName.text).reverse, by simp, ?_, hx⟩
    rw [← hplace, ← htext]
    simp

/-- Every path is written with a slash first, and only `/` is no more than that. -/
theorem pathText_eq_cons (place : List FileName) :
    ∃ text, pathText (Disk.stepsTo place) = slash :: text ∧ (text = [] → place = []) := by
  cases place with
  | nil => exact ⟨[], rfl, fun _ => rfl⟩
  | cons name up =>
    rw [pathText_stepsTo (List.cons_ne_nil name up)]
    cases hr : ((name :: up).map FileName.text).reverse with
    | nil => simp at hr
    | cons n names =>
      refine ⟨n ++ written slash names, written_cons n names, fun hempty => ?_⟩
      -- the first name would be empty
      have hmem : n ∈ ((name :: up).map FileName.text).reverse := by
        rw [hr]
        exact List.mem_cons_self
      obtain ⟨m, -, hm⟩ := List.mem_map.1 (List.mem_reverse.1 hmem)
      exact absurd (hm.trans (List.append_eq_nil_iff.1 hempty).1) m.nonempty

/-- **What the check lets through**: the root, what is below it, and what is beside it under a longer name. -/
theorem startsWith_iff {root place : List FileName} :
    startsWith root place = true ↔ root <:+ place ∨ Beside root place := by
  rw [startsWith, List.isPrefixOf_iff_prefix]
  cases root with
  | nil =>
    obtain ⟨text, htext, -⟩ := pathText_eq_cons place
    rw [htext]
    exact iff_of_true (List.cons_prefix_cons.2 ⟨rfl, List.nil_prefix⟩) (Or.inl List.nil_suffix)
  | cons name up =>
    cases place with
    | nil =>
      refine iff_of_false (fun h => ?_) ?_
      · obtain ⟨text, htext, hroot⟩ := pathText_eq_cons (name :: up)
        rw [htext] at h
        exact List.cons_ne_nil name up (hroot (List.prefix_nil.1 (List.cons_prefix_cons.1 h).2))
      · rintro (h | ⟨_, _, longer, x, -, h, -⟩)
        · exact List.cons_ne_nil _ _ (List.suffix_nil.1 h)
        · exact List.cons_ne_nil _ _ (List.suffix_nil.1 h)
    | cons m below =>
      rw [pathText_stepsTo (List.cons_ne_nil name up), pathText_stepsTo (List.cons_ne_nil m below),
        written_prefix_iff (noSlash_texts _) (noSlash_texts _), texts_suffix_iff]
      exact or_congr_right beside_texts_iff

theorem not_suffix_of_beside {root place : List FileName} (h : Beside root place) : ¬ root <:+ place := by
  obtain ⟨name, up, longer, x, rfl, hlonger, htext, hx⟩ := h
  intro hroot
  have hsame : name :: up = longer :: up := by
    rcases List.suffix_or_suffix_of_suffix hroot hlonger with h | h
    · exact h.eq_of_length rfl
    · exact (h.eq_of_length rfl).symm
  obtain ⟨rfl, -⟩ := List.cons.inj hsame
  exact hx (List.append_right_eq_self.1 htext.symm)

/-- Strictly inside is what is let through and does not lead astray. -/
theorem strictlyInside_iff {root place : List FileName} (h : startsWith root place = true) :
    StrictlyInside root place ↔ ¬ (place = root ∨ Beside root place) := by
  constructor
  · rintro ⟨hroot, hne⟩ (he | hbeside)
    · exact hne he
    · exact not_suffix_of_beside hbeside hroot
  · intro hn
    rw [not_or] at hn
    exact ⟨(startsWith_iff.1 h).resolve_right hn.2, hn.1⟩

/-! ## The call -/

variable {git : Git} {d : FileTree} {repo : List (Step FileName)} {workerId : PyStr}

/-- What git goes at: the one worktree the path leads to, if it can be removed. -/
theorem mem_worktreeRemove_iff {steps : List (Step FileName)} {place : List FileName} :
    place ∈ (git.worktreeRemove d steps).2 ↔
      realPath d.links takenName ⟨true, steps⟩ = .reached place ∧ place ∈ git.removable := by
  rw [Git.worktreeRemove]
  cases hreal : realPath d.links takenName ⟨true, steps⟩ with
  | reached reached =>
    dsimp only
    split
    · rename_i hmem
      rw [List.mem_singleton]
      constructor
      · rintro rfl
        exact ⟨rfl, hmem⟩
      · rintro ⟨h, -⟩
        cases h
        rfl
    · rename_i hmem
      refine iff_of_false (by rintro ⟨⟩) ?_
      rintro ⟨h, hin⟩
      cases h
      exact hmem hin
  | _ => exact iff_of_false (by rintro ⟨⟩) (fun h => by cases h.1)

/-- **What the call goes at**: one worktree git removes, let through by the check. -/
theorem mem_acted_iff {place : List FileName} : place ∈ (destroy git d repo workerId).acted ↔
    ∃ root, resolved d (worktreesRoot repo) = .ok root ∧
      realPath d.links takenName ⟨true, worktreePath repo workerId⟩ = .reached place ∧
      pathExists d (worktreePath repo workerId) = true ∧ place ∈ git.removable ∧ startsWith root place = true := by
  constructor
  · intro h
    unfold destroy at h
    dsimp only at h
    split at h
    · cases h
    · rename_i found hfound
      split at h
      · cases h
      · rename_i root hroot
        split at h
        · cases h
        · rename_i hstarts
          split at h
          · rename_i hexists
            have hacted : place ∈ (git.worktreeRemove d (worktreePath repo workerId)).2 := by
              cases hgit : git.worktreeRemove d (worktreePath repo workerId) with
              | mk ok acted =>
                rw [hgit] at h
                cases ok <;> exact h
            obtain ⟨hreal, hmem⟩ := mem_worktreeRemove_iff.1 hacted
            have hsame : found = place := by
              have hres := Disk.resolve_of_realPath hreal
              rw [resolved, hres] at hfound
              exact (Except.ok.inj hfound).symm
            subst hsame
            exact ⟨root, hroot, hreal, hexists, hmem, by simpa using hstarts⟩
          · cases h
  · rintro ⟨root, hroot, hreal, hexists, hmem, hstarts⟩
    have hfound : resolved d (worktreePath repo workerId) = .ok place := Disk.resolve_of_realPath hreal
    have hgit : git.worktreeRemove d (worktreePath repo workerId) = (git.completes place, [place]) := by
      rw [Git.worktreeRemove, hreal]
      exact if_pos hmem
    rw [destroy, hfound]
    dsimp only
    rw [hroot]
    dsimp only
    rw [if_neg (by rw [hstarts]; simp), if_pos hexists, hgit]
    cases git.completes place <;> exact List.mem_singleton_self place

theorem not_keepsInside_of_stray (h : Stray git d repo workerId) :
    ¬ KeepsInside d repo (destroy git d repo workerId) := by
  obtain ⟨root, place, hroot, hreal, hexists, hmem, hastray⟩ := h
  have hstarts : startsWith root place = true := by
    refine startsWith_iff.2 (hastray.imp_left (fun he => ?_))
    rw [he]
  have hacted : place ∈ (destroy git d repo workerId).acted :=
    mem_acted_iff.2 ⟨root, hroot, hreal, hexists, hmem, hstarts⟩
  rintro (⟨e, -, hnone⟩ | hall)
  · rw [hnone] at hacted
    cases hacted
  · obtain ⟨root', hroot', hinside⟩ := hall place hacted
    rw [hroot] at hroot'
    cases hroot'
    exact (strictlyInside_iff hstarts).1 hinside hastray

/-- **`destroy`**: it refuses or stays strictly inside the root, exactly when the id does not lead astray. -/
theorem keepsInside_iff (git : Git) (d : FileTree) (repo : List (Step FileName)) (workerId : PyStr) :
    KeepsInside d repo (destroy git d repo workerId) ↔ ¬ Stray git d repo workerId := by
  refine ⟨fun hkeeps hstray => not_keepsInside_of_stray hstray hkeeps, fun hstray => Or.inr (fun place hacted => ?_)⟩
  obtain ⟨root, hroot, hreal, hexists, hmem, hstarts⟩ := mem_acted_iff.1 hacted
  exact ⟨root, hroot, (strictlyInside_iff hstarts).2 (fun ha => hstray ⟨root, place, hroot, hreal, hexists, hmem, ha⟩)⟩

/-- The place of a path without dots. -/
def placeOf (path : PyStr) : List FileName :=
  ((pathSteps path).filterMap (fun s => match s with | .up => none | .down name => some name)).reverse

/-- The directories down to one worktree in the harness root and one in a directory next to it. -/
def oldWorktrees : FileTree where
  links := []
  nodes := fun place =>
    if place <:+ placeOf (py "/r/.dev-harness/worktrees/w1") ∨ place <:+ placeOf (py "/r/.dev-harness/worktrees-old/w1")
    then some .dir else none
  root := if_pos (Or.inl List.nil_suffix)
  permits := fun _ => true
  log := []

/-- **A sibling under a longer name**: its worktree is removed. -/
theorem sibling_removed : ¬ KeepsInside oldWorktrees (pathSteps (py "/r"))
    (destroy ⟨[placeOf (py "/r/.dev-harness/worktrees-old/w1")], fun _ => true, id⟩ oldWorktrees (pathSteps (py "/r"))
      (py "../worktrees-old/w1")) := by
  have hroot : realPath oldWorktrees.links takenName ⟨true, worktreesRoot (pathSteps (py "/r"))⟩ =
      .reached (placeOf (py "/r/.dev-harness/worktrees")) := by decide +kernel
  have hplace : realPath oldWorktrees.links takenName ⟨true, worktreePath (pathSteps (py "/r")) (py "../worktrees-old/w1")⟩ =
      .reached (placeOf (py "/r/.dev-harness/worktrees-old/w1")) := by decide +kernel
  have hbeside : Beside (placeOf (py "/r/.dev-harness/worktrees")) (placeOf (py "/r/.dev-harness/worktrees-old/w1")) :=
    ⟨⟨py "worktrees", by decide, by decide⟩, placeOf (py "/r/.dev-harness"), ⟨py "worktrees-old", by decide, by decide⟩,
      py "-old", by decide +kernel, by decide +kernel, by decide, by decide⟩
  exact not_keepsInside_of_stray ⟨_, _, Disk.resolve_of_realPath hroot, hplace, by decide +kernel,
    List.mem_singleton_self _, Or.inr hbeside⟩

end Vcs
end DevHarness
