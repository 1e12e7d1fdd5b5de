import DevHarness.Lib.Patch
import DevHarness.Lib.Python
/-!
# WorktreeState — a worktree's state captured and restored (`engine/worker_workspace.py`, 8.21b)

The capture is HEAD and the diff of the working tree from an index to which every untracked file is added by intent, read
as text.  Adding so drops a deleted file from the index and the diff, the reset that follows drops what was staged, and
reading text drops carriage returns: the state comes back exactly when none of these takes anything (`Capturable`).
-/
namespace DevHarness
namespace Engine

open Lib

variable {P B M : Type}

/-- The object store: the name of a commit, and the commit of a name. -/
structure Objects (P B M : Type) where
  sha : Git.Commit (Tree P B) M → String
  resolve : String → Option (Git.Commit (Tree P B) M)

/-- The commit is in the store under its name. -/
structure Objects.Has (o : Objects P B M) (c : Git.Commit (Tree P B) M) : Prop where
  resolve : o.resolve (o.sha c) = some c
  named : o.sha c ≠ ""

theorem Objects.Has.eq_of_sha {o : Objects P B M} {c d : Git.Commit (Tree P B) M} (hc : o.Has c) (hd : o.Has d)
    (h : o.sha c = o.sha d) : c = d := by
  have hcd := hc.resolve
  rw [h, hd.resolve] at hcd
  exact (Option.some.inj hcd).symm

/-- The `{head, diff}` of a capture. -/
structure WorktreeState where
  head : String
  diff : String
  deriving DecidableEq

/-- What a capture or a restore raises: no worktree bound, a git command that failed, a patch refused, or output that is
not text. -/
inductive WorkspaceError where
  | unbound (doing : String)
  | git (command : String)
  | patch
  | unicodeDecode
  deriving DecidableEq

/-- The text of an error of a worker, from its worktree's path and what git printed. -/
def WorkspaceError.message (workerId root stderr : String) : WorkspaceError → String
  | .unbound _ => s!"worker '{workerId}' is not bound to a worktree."
  | .git command => s!"git {command} failed in {root}: {stderr}"
  | .patch => s!"failed to restore worktree '{workerId}': {stderr}"
  | .unicodeDecode => stderr

def WorkspaceError.remediation : WorkspaceError → String
  | .unbound doing => s!"Bind the worker to a worktree before {doing} its state."
  | .git _ => "Inspect the worktree git state and retry the capture."
  | .patch => "Inspect the worktree and re-apply the captured diff."
  | .unicodeDecode => ""

variable [DecidableEq P]

/-- `git reset --hard` to the recorded HEAD, where there is one and it differs. -/
def resetTo (o : Objects P B M) (root : Checkout P B M) (head : String) : Option (Checkout P B M) :=
  if head = "" ∨ o.sha root.head = head then some root else (o.resolve head).map root.resetHard

/-- A clean worktree, moved to the captured HEAD, is that commit's. -/
theorem resetTo_clean (o : Objects P B M) {w target : Checkout P B M} (hw : o.Has w.head) (ht : o.Has target.head) (hclean : target.Clean) :
    ∃ w', resetTo o target (o.sha w.head) = some w' ∧ w'.head = w.head ∧ w'.files = w.head.tree := by
  unfold resetTo
  split
  · rename_i hsame
    have heq : target.head = w.head := ht.eq_of_sha hw (hsame.resolve_left hw.named)
    exact ⟨target, rfl, heq, by rw [hclean.2, heq]⟩
  · rw [hw.resolve]
    exact ⟨_, rfl, rfl, (Checkout.clean_resetHard hclean w.head).2⟩

variable [DecidableEq B]

/-- What the capture depends on of git's diffs: how one prints, when its output is text at all, and what `git apply`
makes of a text.  A diff applies to the tree it was taken from; one whose carriage returns were read as newlines does
not give every file it changes its content. -/
structure GitDiff (P B : Type) [DecidableEq P] [DecidableEq B] where
  render : Patch P B → Option String
  apply : String → Tree P B → Option (Tree P B)
  render_empty : ∀ patch, render patch = some "" ↔ patch = Tree.empty
  apply_render : ∀ s t text, render (Patch.between s t) = some text → apply text s = some t
  apply_translated : ∀ s t text t', render (Patch.between s t) = some text → '\r' ∈ text.toList →
    apply (universalNewlines text) s = some t' → ∃ p c, (Patch.between s t).get p = some c ∧ t'.get p ≠ c.new

/-- The worktrees a workspace has bound, by worker. -/
abbrev Roots (P B M : Type) := String → Option (Checkout P B M)

section
variable (g : GitDiff P B) (o : Objects P B M)

/-- `capture`: what it returns, and the worktrees it leaves.  Output that is not text raises before the reset. -/
def capture (ignored : P → Bool) (roots : Roots P B M) (workerId : String) :
    Except WorkspaceError WorktreeState × Roots P B M :=
  match roots workerId with
  | none => (.error (.unbound "capturing"), roots)
  | some root =>
    let added := root.addIntentAll ignored
    match g.render added.diff with
    | none => (.error .unicodeDecode, Function.update roots workerId (some added))
    | some stdout => (.ok ⟨o.sha root.head, universalNewlines stdout⟩, Function.update roots workerId (some added.reset))

def restore (roots : Roots P B M) (workerId : String) (snapshot : WorktreeState) :
    Except WorkspaceError Unit × Roots P B M :=
  match roots workerId with
  | none => (.error (.unbound "restoring"), roots)
  | some root => match resetTo o root snapshot.head with
    | none => (.error (.git s!"reset --hard {snapshot.head}"), roots)
    | some root =>
      if snapshot.diff = "" then (.ok (), Function.update roots workerId (some root))
      else match g.apply snapshot.diff root.files with
        | none => (.error .patch, Function.update roots workerId (some root))
        | some files => (.ok (), Function.update roots workerId (some { root with files }))

/-- **The captured state comes back**: restored into any clean worktree of the repository, it gives the captured HEAD and
the same files with the same contents. -/
def ComesBack (w : Checkout P B M) (snapshot : WorktreeState) : Prop :=
  ∀ (roots : Roots P B M) (workerId : String) (target : Checkout P B M), roots workerId = some target → target.Clean →
    o.Has target.head → ∃ w', restore g o roots workerId snapshot = (.ok (), Function.update roots workerId (some w')) ∧
      w'.head = w.head ∧ w'.files = w.files

/-- **The round trip**: the capture changes nothing, and what it captured comes back. -/
def RoundTrips (ignored : P → Bool) (roots : Roots P B M) (workerId : String) (w : Checkout P B M) : Prop :=
  (capture g o ignored roots workerId).2 = roots ∧
    ∃ snapshot, (capture g o ignored roots workerId).1 = .ok snapshot ∧ ComesBack g o w snapshot

/-- **The capture sees all there is**: nothing is staged, no tracked file is missing and no ignored one untracked, and
the diff from HEAD to the working tree is text without a carriage return. -/
structure Capturable (ignored : P → Bool) (w : Checkout P B M) : Prop where
  unstaged : w.index = Checkout.staged w.head.tree
  visible : w.Visible ignored
  printable : ∃ text, g.render (Patch.between w.head.tree w.files) = some text ∧ '\r' ∉ text.toList

theorem capture_of_some {ignored : P → Bool} {roots : Roots P B M} {workerId : String} {w : Checkout P B M}
    {stdout : String} (h : roots workerId = some w) (hr : g.render (w.addIntentAll ignored).diff = some stdout) :
    capture g o ignored roots workerId = (.ok ⟨o.sha w.head, universalNewlines stdout⟩,
      Function.update roots workerId (some (w.addIntentAll ignored).reset)) := by
  simp only [capture, h, hr]

/-- What is restored into a clean worktree is HEAD with the diff's text applied. -/
theorem restore_clean {roots : Roots P B M} {workerId : String} {w target : Checkout P B M} {diff : String}
    (hw : o.Has w.head) (ht : o.Has target.head) (hroot : roots workerId = some target) (hclean : target.Clean)
    {files : Tree P B} (hfiles : if diff = "" then files = w.head.tree else g.apply diff w.head.tree = some files) :
    ∃ w', restore g o roots workerId ⟨o.sha w.head, diff⟩ = (.ok (), Function.update roots workerId (some w')) ∧
      w'.head = w.head ∧ w'.files = files := by
  obtain ⟨w₁, hreset, hhead, htree⟩ := resetTo_clean o hw ht hclean
  unfold restore
  simp only [hroot, hreset]
  split at hfiles
  · rename_i hempty
    rw [if_pos hempty]
    exact ⟨w₁, rfl, hhead, htree.trans hfiles.symm⟩
  · rename_i hdiff
    rw [if_neg hdiff, htree]
    simp only [hfiles]
    exact ⟨_, rfl, hhead, rfl⟩

/-- What comes back in the clean worktree at the captured HEAD itself is the diff's text applied there. -/
theorem ComesBack.files {w : Checkout P B M} {diff : String} (h : ComesBack g o w ⟨o.sha w.head, diff⟩)
    (hhead : o.Has w.head) : if diff = "" then w.files = w.head.tree else g.apply diff w.head.tree = some w.files := by
  let target : Checkout P B M := ⟨w.head, Checkout.staged w.head.tree, w.head.tree⟩
  obtain ⟨w', hrestore, -, hfiles⟩ := h (fun _ => some target) "" target rfl ⟨rfl, rfl⟩ hhead
  have hreset : resetTo o target (o.sha w.head) = some target := if_pos (Or.inr rfl)
  unfold restore at hrestore
  simp only [hreset] at hrestore
  split
  · rename_i hempty
    rw [if_pos hempty] at hrestore
    have hat := congrFun (congrArg Prod.snd hrestore) ""
    simp only [Function.update_self, Option.some.injEq] at hat
    rw [← hfiles, ← hat]
  · rename_i hdiff
    rw [if_neg hdiff] at hrestore
    show g.apply diff target.files = some w.files
    cases happly : g.apply diff target.files with
    | none =>
      simp only [happly] at hrestore
      cases congrArg Prod.fst hrestore
    | some files =>
      simp only [happly] at hrestore
      have hat := congrFun (congrArg Prod.snd hrestore) ""
      simp only [Function.update_self, Option.some.injEq] at hat
      rw [← hfiles, ← hat]

section
variable {ignored : P → Bool} {roots : Roots P B M} {workerId : String} {w : Checkout P B M}

theorem capturable_of_roundTrips (hroot : roots workerId = some w) (hhead : o.Has w.head)
    (h : RoundTrips g o ignored roots workerId w) : Capturable g ignored w := by
  obtain ⟨hkept, snapshot, hcaptured, hback⟩ := h
  cases hr : g.render (w.addIntentAll ignored).diff with
  | none =>
    simp only [capture, hroot, hr] at hcaptured
    cases hcaptured
  | some stdout =>
    rw [capture_of_some g o hroot hr] at hkept hcaptured
    cases hcaptured
    -- nothing was staged: the index is HEAD's after the capture
    have hreset : (w.addIntentAll ignored).reset = w := by
      have hat := congrFun hkept workerId
      simp only [Function.update_self, hroot, Option.some.injEq] at hat
      exact hat
    have hindex : w.index = Checkout.staged w.head.tree := (congrArg Checkout.index hreset).symm
    have hfiles := hback.files g o hhead
    suffices hrest : w.Visible ignored ∧
        ∃ text, g.render (Patch.between w.head.tree w.files) = some text ∧ '\r' ∉ text.toList from
      ⟨hindex, hrest.1, hrest.2⟩
    by_cases hempty : stdout = ""
    · rw [if_pos (universalNewlines_eq_empty_iff.2 hempty)] at hfiles
      exact ⟨Checkout.visible_of_files_eq hfiles, "", (g.render_empty _).2 (Patch.between_eq_empty_iff.2 hfiles.symm),
        by simp⟩
    · rw [if_neg (fun h => hempty (universalNewlines_eq_empty_iff.1 h))] at hfiles
      obtain ⟨seen, hseen, hnew⟩ := w.diff_addIntentAll_between ignored hindex
      have hcr : '\r' ∉ stdout.toList := by
        intro hcr
        obtain ⟨p, c, hc, hne⟩ := g.apply_translated _ _ _ _ (hseen ▸ hr) hcr hfiles
        exact hne (hnew p c (hseen.symm ▸ hc))
      rw [universalNewlines_eq_self hcr, g.apply_render _ _ _ (hseen ▸ hr)] at hfiles
      cases hfiles
      exact ⟨(Checkout.diff_addIntentAll_eq_iff hindex).1 hseen, stdout, hseen ▸ hr, hcr⟩

theorem roundTrips_of_capturable (hroot : roots workerId = some w) (hhead : o.Has w.head) (h : Capturable g ignored w) :
    RoundTrips g o ignored roots workerId w := by
  obtain ⟨hindex, hvisible, text, htext, hcr⟩ := h
  have hdiff := (Checkout.diff_addIntentAll_eq_iff hindex).2 hvisible
  have hr : g.render (w.addIntentAll ignored).diff = some text := by rw [hdiff, htext]
  have hsame : universalNewlines text = text := universalNewlines_eq_self hcr
  unfold RoundTrips
  rw [capture_of_some g o hroot hr]
  have hreset : (w.addIntentAll ignored).reset = w := by
    show (⟨w.head, Checkout.staged w.head.tree, w.files⟩ : Checkout P B M) = w
    rw [← hindex]
  refine ⟨?_, _, rfl, fun roots' workerId' target htarget hclean hhas => ?_⟩
  · show Function.update roots workerId (some (w.addIntentAll ignored).reset) = roots
    rw [hreset, ← hroot, Function.update_eq_self]
  · refine restore_clean g o hhead hhas htarget hclean ?_
    rw [hsame]
    split
    · rename_i hempty
      rw [hempty] at htext
      exact (Patch.between_eq_empty_iff.1 ((g.render_empty _).1 htext)).symm
    · exact g.apply_render _ _ _ htext

end

/-- **Captured, then restored**: for every state of a bound worktree, whatever git's diffs look like and its rules
ignore, the capture changes nothing and what it captured comes back if and only if the state is capturable. -/
theorem roundTrips_iff_capturable (ignored : P → Bool) (roots : Roots P B M) (workerId : String) (w : Checkout P B M)
    (hroot : roots workerId = some w) (hhead : o.Has w.head) :
    RoundTrips g o ignored roots workerId w ↔ Capturable g ignored w :=
  ⟨capturable_of_roundTrips g o hroot hhead, roundTrips_of_capturable g o hroot hhead⟩

end

/-! ## An edit, and a deletion -/

/-- Git on one diff: how it prints, and to what it applies. -/
def GitDiff.ofText (s t : Tree P B) (text : String) (htext : text ≠ "") (hcr : '\r' ∉ text.toList) :
    GitDiff P B where
  render patch := if patch = Tree.empty then some "" else if patch = Patch.between s t then some text else none
  apply input files := if input = text then Patch.apply (Patch.between s t) files else if input = "" then some files else none
  render_empty patch := by
    split
    · rename_i h
      exact iff_of_true rfl h
    · rename_i h
      refine iff_of_false ?_ h
      split
      · exact fun heq => htext (Option.some.inj heq)
      · exact fun heq => by cases heq
  apply_render s' t' input h := by
    split at h
    · rename_i hempty
      cases h
      rw [if_neg (Ne.symm htext), if_pos rfl, Patch.between_eq_empty_iff.1 hempty]
    · split at h
      · rename_i hpatch
        cases h
        rw [if_pos rfl, ← hpatch]
        exact Patch.apply_eq_some_iff.2 rfl
      · cases h
  apply_translated s' t' input files h hmem := by
    split at h
    · cases h
      simp at hmem
    · split at h
      · cases h
        exact absurd hmem hcr
      · cases h

theorem GitDiff.render_ofText {s t : Tree P B} {text : String} (hst : s ≠ t) (htext : text ≠ "")
    (hcr : '\r' ∉ text.toList) : (GitDiff.ofText s t text htext hcr).render (Patch.between s t) = some text := by
  show (if Patch.between s t = Tree.empty then some "" else if Patch.between s t = Patch.between s t then some text
    else none) = some text
  rw [if_neg (fun h => hst (Patch.between_eq_empty_iff.1 h)), if_pos rfl]

def firstTree : Tree String String := Tree.single "a.txt" "v1\n"

def editedTree : Tree String String := Tree.overlay {"a.txt"} (Tree.single "a.txt" "v2\n") (Tree.single "new.txt" "n\n")

def firstCommit : Git.Commit (Tree String String) String := .mk firstTree "first" []

def store : Objects String String String :=
  ⟨fun _ => "3f1c2a", fun name => if name = "3f1c2a" then some firstCommit else none⟩

def editText : String :=
  "diff --git a/a.txt b/a.txt\nindex 626799f..8c1384d 100644\n--- a/a.txt\n+++ b/a.txt\n@@ -1 +1 @@\n-v1\n+v2\n" ++
  "diff --git a/new.txt b/new.txt\nnew file mode 100644\nindex 0000000..8ba3a16\n--- /dev/null\n+++ b/new.txt\n" ++
  "@@ -0,0 +1 @@\n+n\n"

def gitEdit : GitDiff String String :=
  GitDiff.ofText firstTree editedTree editText (by decide +kernel) (by decide +kernel)

/-- A tracked file edited and a new one. -/
def edited : Checkout String String String := ⟨firstCommit, Checkout.staged firstTree, editedTree⟩

theorem roundTrips_edited : RoundTrips gitEdit store (fun _ => false) (fun _ => some edited) "worker-1" edited :=
  (roundTrips_iff_capturable gitEdit store (fun _ => false) (fun _ => some edited) "worker-1" edited rfl
    ⟨rfl, by decide⟩).2 ⟨rfl, by decide +kernel, editText, GitDiff.render_ofText (by decide +kernel) _ _, by decide +kernel⟩

/-- The tracked file deleted. -/
def deleted : Checkout String String String := ⟨firstCommit, Checkout.staged firstTree, Tree.empty⟩

/-- **A deleted file comes back**: the capture has no diff, and the restored worktree has the file. -/
theorem deletion_not_captured :
    (capture gitEdit store (fun _ => false) (fun _ => some deleted) "worker-1").1 = .ok ⟨"3f1c2a", ""⟩ ∧
    ¬ RoundTrips gitEdit store (fun _ => false) (fun _ => some deleted) "worker-1" deleted := by
  have hdiff : (deleted.addIntentAll (fun _ => false)).diff = Tree.empty := by decide +kernel
  have hr : gitEdit.render (deleted.addIntentAll (fun _ => false)).diff = some "" := (gitEdit.render_empty _).2 hdiff
  have hcapture : (capture gitEdit store (fun _ => false) (fun _ => some deleted) "worker-1").1 = .ok ⟨"3f1c2a", ""⟩ := by
    rw [capture_of_some gitEdit store rfl hr]
    rfl
  refine ⟨hcapture, ?_⟩
  rintro ⟨-, snapshot, hsnapshot, hback⟩
  rw [hcapture] at hsnapshot
  cases hsnapshot
  have hfiles : deleted.files = firstTree := ComesBack.files gitEdit store (w := deleted) hback ⟨rfl, by decide⟩
  revert hfiles
  decide +kernel

end Engine
end DevHarness
