import DevHarness.Lib.Git
/-!
# Patch — the changes between two trees, and a checkout they are read from and applied to

A patch has for each path it touches the content before and a different one after, so the patch between two trees is
the only one that takes the first to the second (`apply_eq_some_iff`).  A checkout has a HEAD, an index whose entries
may only intend to add a file, and a working tree; the commands are those that capture and replay uncommitted work.
-/
namespace Lib

variable {P B : Type}

/-- A path's content before and after; `none` is no file. -/
structure Change (B : Type) where
  old : Option B
  new : Option B
  differs : old ≠ new
  deriving DecidableEq

@[ext] theorem Change.ext {c d : Change B} (hold : c.old = d.old) (hnew : c.new = d.new) : c = d := by
  cases c
  cases d
  cases hold
  cases hnew
  rfl

abbrev Patch (P B : Type) := Tree P (Change B)

namespace Patch

section
variable [DecidableEq P]

/-- The contents after the patch. -/
def patched (patch : Patch P B) (files : Tree P B) : Tree P B :=
  Tree.build (patch.paths ∪ files.paths) (fun p => match patch.get p with
    | some c => c.new
    | none => files.get p)

theorem patched_get (patch : Patch P B) (files : Tree P B) (p : P) : (patched patch files).get p =
    match patch.get p with
    | some c => c.new
    | none => files.get p := by
  refine Tree.build_get (fun h => ?_)
  rw [Finset.mem_union, not_or, ← patch.get_eq_none_iff, ← files.get_eq_none_iff] at h
  rw [h.1, h.2]

end

variable [DecidableEq B]

/-- The change from one content to another, if there is one. -/
def change (o n : Option B) : Option (Change B) := if h : o = n then none else some ⟨o, n, h⟩

theorem change_self (o : Option B) : change o o = none := dif_pos rfl

theorem change_eq_some_iff {o n : Option B} {c : Change B} : change o n = some c ↔ c.old = o ∧ c.new = n := by
  unfold change
  constructor
  · intro h
    split at h
    · cases h
    · cases h
      exact ⟨rfl, rfl⟩
  · rintro ⟨rfl, rfl⟩
    rw [dif_neg c.differs]

theorem change_eq_none_iff {o n : Option B} : change o n = none ↔ o = n := by
  unfold change
  split <;> simp_all

variable [DecidableEq P]

def between (s t : Tree P B) : Patch P B := Tree.build (s.paths ∪ t.paths) (fun p => change (s.get p) (t.get p))

theorem between_get (s t : Tree P B) (p : P) : (between s t).get p = change (s.get p) (t.get p) := by
  refine Tree.build_get (fun h => ?_)
  rw [Finset.mem_union, not_or, ← s.get_eq_none_iff, ← t.get_eq_none_iff] at h
  rw [h.1, h.2, change_self]

/-- `git apply`: refused where a file is not as the patch found it. -/
def apply (patch : Patch P B) (files : Tree P B) : Option (Tree P B) :=
  if ∀ p ∈ patch.paths, (patch.get p).map Change.old = some (files.get p) then some (patched patch files) else none

/-- **The patch between two trees is the one that takes the first to the second.** -/
theorem apply_eq_some_iff {patch : Patch P B} {s t : Tree P B} : apply patch s = some t ↔ patch = between s t := by
  constructor
  · intro h
    unfold apply at h
    split at h
    · rename_i hold
      cases h
      ext1 p
      rw [between_get, patched_get]
      cases hp : patch.get p with
      | none => exact (change_self _).symm
      | some c =>
        have hc := hold p ((patch.mem_paths p).2 (by rw [hp]; rfl))
        rw [hp, Option.map_some, Option.some.injEq] at hc
        exact (change_eq_some_iff.2 ⟨hc, rfl⟩).symm
    · cases h
  · rintro rfl
    have hpatched : patched (between s t) s = t := by
      ext1 p
      rw [patched_get, between_get]
      cases hc : change (s.get p) (t.get p) with
      | none => exact change_eq_none_iff.1 hc
      | some c => exact (change_eq_some_iff.1 hc).2
    unfold apply
    rw [hpatched, if_pos]
    intro p hp
    obtain ⟨c, hc⟩ := Option.isSome_iff_exists.1 (((between s t).mem_paths p).1 hp)
    rw [hc]
    rw [between_get] at hc
    rw [Option.map_some, (change_eq_some_iff.1 hc).1]

theorem between_eq_empty_iff {s t : Tree P B} : between s t = Tree.empty ↔ s = t := by
  constructor
  · intro h
    ext1 p
    have hget := congrArg (fun patch => patch.get p) h
    rw [between_get] at hget
    exact change_eq_none_iff.1 hget
  · rintro rfl
    ext1 p
    rw [between_get, change_self]
    rfl

end Patch

/-! ## A checkout -/

/-- An index entry: a content, or the intent to add the file. -/
inductive Entry (B : Type) where
  | blob (b : B)
  | intentToAdd
  deriving DecidableEq

def Entry.content : Entry B → Option B
  | .blob b => some b
  | .intentToAdd => none

/-- A HEAD, its index and its working tree. -/
structure Checkout (P B M : Type) where
  head : Git.Commit (Tree P B) M
  index : Tree P (Entry B)
  files : Tree P B

namespace Checkout

variable {M : Type}

/-- Every path HEAD tracks is in the working tree, and every other one there is not ignored. -/
def Visible (ignored : P → Bool) (w : Checkout P B M) : Prop :=
  (∀ p, (w.head.tree.get p).isSome = true → (w.files.get p).isSome = true) ∧
    ∀ p, (w.files.get p).isSome = true → ignored p = true → (w.head.tree.get p).isSome = true

instance (ignored : P → Bool) (w : Checkout P B M) [DecidableEq P] : Decidable (w.Visible ignored) :=
  decidable_of_iff ((∀ p ∈ w.head.tree.paths, p ∈ w.files.paths) ∧
      ∀ p ∈ w.files.paths, ignored p = true → p ∈ w.head.tree.paths) (by
    simp only [Tree.mem_paths]
    exact Iff.rfl)

theorem visible_of_files_eq {ignored : P → Bool} {w : Checkout P B M} (h : w.files = w.head.tree) : w.Visible ignored :=
  ⟨fun _ hp => h ▸ hp, fun _ hp _ => h ▸ hp⟩

variable [DecidableEq P]

def staged (t : Tree P B) : Tree P (Entry B) := t.map Entry.blob

/-- Nothing staged, changed or untracked. -/
def Clean (w : Checkout P B M) : Prop := w.index = staged w.head.tree ∧ w.files = w.head.tree

/-- `git add -N -A`: a file not in the index is to be added unless it is ignored, and an entry without its file goes. -/
def addIntentAll (ignored : P → Bool) (w : Checkout P B M) : Checkout P B M :=
  { w with index := Tree.build (w.index.paths ∪ w.files.paths) (fun p =>
      match w.index.get p, w.files.get p with
      | some e, some _ => some e
      | none, some _ => if ignored p then none else some .intentToAdd
      | _, none => none) }

/-- `git reset`: the index is HEAD's. -/
def reset (w : Checkout P B M) : Checkout P B M := { w with index := staged w.head.tree }

/-- `git reset --hard c`: every path that is tracked, or tracked in `c`, is `c`'s. -/
def resetHard (w : Checkout P B M) (c : Git.Commit (Tree P B) M) : Checkout P B M :=
  ⟨c, staged c.tree, Tree.overlay (w.index.paths ∪ c.tree.paths) c.tree w.files⟩

theorem addIntentAll_get (ignored : P → Bool) (w : Checkout P B M) (p : P) : (w.addIntentAll ignored).index.get p =
    match w.index.get p, w.files.get p with
    | some e, some _ => some e
    | none, some _ => if ignored p then none else some .intentToAdd
    | _, none => none := by
  refine Tree.build_get (fun h => ?_)
  rw [Finset.mem_union, not_or, ← w.index.get_eq_none_iff, ← w.files.get_eq_none_iff] at h
  rw [h.1, h.2]

/-- A hard reset of a clean checkout leaves a clean one. -/
theorem clean_resetHard {w : Checkout P B M} (h : w.Clean) (c : Git.Commit (Tree P B) M) : (w.resetHard c).Clean := by
  refine ⟨rfl, ?_⟩
  show Tree.overlay (w.index.paths ∪ c.tree.paths) c.tree w.files = c.tree
  ext1 p
  rw [Tree.overlay_get]
  split
  · rfl
  · rename_i hp
    rw [Finset.mem_union, not_or, ← c.tree.get_eq_none_iff] at hp
    have hfiles : w.files.get p = none := by
      rw [h.2, w.head.tree.get_eq_none_iff]
      rw [h.1] at hp
      exact hp.1
    rw [hfiles, hp.2]

variable [DecidableEq B]

/-- `git diff`: the changes from the index to the working tree, on the paths of the index. -/
def diff (w : Checkout P B M) : Patch P B :=
  Tree.build w.index.paths (fun p => match w.index.get p with
    | none => none
    | some e => Patch.change e.content (w.files.get p))

theorem diff_get (w : Checkout P B M) (p : P) : w.diff.get p =
    match w.index.get p with
    | none => none
    | some e => Patch.change e.content (w.files.get p) := by
  refine Tree.build_get (fun h => ?_)
  rw [← w.index.get_eq_none_iff] at h
  rw [h]

/-- **What the capture sees** of a checkout with nothing staged: the changes to the working tree on the paths that are in
it and either tracked or not ignored. -/
theorem diff_addIntentAll_get {ignored : P → Bool} {w : Checkout P B M} (h : w.index = staged w.head.tree) (p : P) :
    (w.addIntentAll ignored).diff.get p =
      if (w.files.get p).isSome = true ∧ (ignored p = true → (w.head.tree.get p).isSome = true) then
        (Patch.between w.head.tree w.files).get p else none := by
  rw [diff_get, addIntentAll_get, Patch.between_get, h, staged, Tree.map_get]
  show (match (match (w.head.tree.get p).map Entry.blob, w.files.get p with
    | some e, some _ => some e
    | none, some _ => if ignored p then none else some Entry.intentToAdd
    | _, none => none) with
    | none => none
    | some e => Patch.change e.content (w.files.get p)) = _
  cases hf : w.files.get p with
  | none => cases w.head.tree.get p <;> simp
  | some b =>
    cases ht : w.head.tree.get p with
    | none =>
      cases hi : ignored p with
      | true => simp
      | false => simp [Entry.content]
    | some b' => simp [Entry.content]

/-- The patch captured is one from HEAD's tree, to the contents of the working tree where it changes anything. -/
theorem diff_addIntentAll_between (w : Checkout P B M) (ignored : P → Bool) (h : w.index = staged w.head.tree) :
    ∃ seen, (w.addIntentAll ignored).diff = Patch.between w.head.tree seen ∧
      ∀ p c, (w.addIntentAll ignored).diff.get p = some c → w.files.get p = c.new := by
  refine ⟨Tree.build (w.head.tree.paths ∪ w.files.paths) (fun p =>
    if (w.files.get p).isSome = true ∧ (ignored p = true → (w.head.tree.get p).isSome = true) then w.files.get p
    else w.head.tree.get p), ?_, fun p c hc => ?_⟩
  · ext1 p
    rw [diff_addIntentAll_get h, Patch.between_get, Patch.between_get, Tree.build_get]
    · split
      · rfl
      · rw [Patch.change_self]
    · intro hp
      rw [Finset.mem_union, not_or, ← w.head.tree.get_eq_none_iff, ← w.files.get_eq_none_iff] at hp
      rw [hp.1, hp.2, ite_self]
  · rw [diff_addIntentAll_get h] at hc
    split at hc
    · rw [Patch.between_get] at hc
      exact (Patch.change_eq_some_iff.1 hc).2.symm
    · cases hc

/-- The capture sees every change exactly when nothing it cannot see differs. -/
theorem diff_addIntentAll_eq_iff {ignored : P → Bool} {w : Checkout P B M} (h : w.index = staged w.head.tree) :
    (w.addIntentAll ignored).diff = Patch.between w.head.tree w.files ↔ w.Visible ignored := by
  constructor
  · intro heq
    refine ⟨fun p hp => ?_, fun p hp hi => ?_⟩
    · by_contra hf
      have hget := congrArg (fun t => t.get p) heq
      rw [diff_addIntentAll_get h, if_neg (fun hc => hf hc.1), Patch.between_get] at hget
      have hsame := Patch.change_eq_none_iff.1 hget.symm
      rw [hsame] at hp
      exact hf hp
    · by_contra ht
      have hget := congrArg (fun t => t.get p) heq
      rw [diff_addIntentAll_get h, if_neg (fun hc => ht (hc.2 hi)), Patch.between_get] at hget
      have hsame := Patch.change_eq_none_iff.1 hget.symm
      rw [← hsame] at hp
      exact ht hp
  · rintro ⟨htracked, hignored⟩
    ext1 p
    rw [diff_addIntentAll_get h]
    split
    · rfl
    · rename_i hnot
      rw [Patch.between_get]
      refine (Patch.change_eq_none_iff.2 ?_).symm
      cases hf : w.files.get p with
      | none =>
        cases ht : w.head.tree.get p with
        | none => rfl
        | some b =>
          have hsome := htracked p (by rw [ht]; rfl)
          rw [hf] at hsome
          cases hsome
      | some b => exact absurd ⟨by rw [hf]; rfl, hignored p (by rw [hf]; rfl)⟩ hnot

end Checkout
end Lib
