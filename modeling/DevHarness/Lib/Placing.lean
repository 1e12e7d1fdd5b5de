import DevHarness.Lib.Disk
/-!
# Placing — files written one after the other, their directories made first

A list of files can be placed exactly when nothing stands in the way of each and none is above another (`placeAll_ok_iff`);
then the disk holds these files, the last for each path, and the directories to them (`laid`).
-/
namespace Lib

universe u v

namespace Disk

variable {N : Type u} {B : Type v} [DecidableEq N]

/-- One file, with the directories to it. -/
def place (d : Disk N B) (encodes : B → Bool) (blank : B) (path : List N) (content : B) :
    Except OsError Unit × Disk N B :=
  match makeDirs path.tail d with
  | (.error e, d') => (.error e, d')
  | (.ok _, d') => d'.writeText encodes blank path content

def placeAll (encodes : B → Bool) (blank : B) : List (List N × B) → Disk N B → Except OsError Unit × Disk N B
  | [], d => (.ok (), d)
  | f :: files, d => match d.place encodes blank f.1 f.2 with
    | (.error e, d') => (.error e, d')
    | (.ok _, d') => placeAll encodes blank files d'

/-- The content of the last file for a path. -/
def lastOf (files : List (List N × B)) (path : List N) : Option B :=
  (files.reverse.find? (fun f => f.1 = path)).map Prod.snd

/-- **What is on a disk once files are placed.** -/
def laid (files : List (List N × B)) (nodes : List N → Option (Node B)) (path : List N) : Option (Node B) :=
  match lastOf files path with
  | some content => some (.file content)
  | none => if (∃ f ∈ files, path <:+ f.1) ∧ nodes path = none then some .dir else nodes path

/-- What one file needs. -/
structure Placeable (d : Disk N B) (encodes : B → Bool) (path : List N) (content : B) : Prop where
  above : d.Free path.tail
  notDir : d.nodes path ≠ some .dir
  permits : d.permits path = true
  encodes : encodes content = true

/-- **What files need**: each its own, and none to be above another. -/
structure Fit (encodes : B → Bool) (files : List (List N × B)) (d : Disk N B) : Prop where
  each : ∀ f ∈ files, d.Placeable encodes f.1 f.2
  apart : ∀ f ∈ files, ∀ g ∈ files, g.1 <:+ f.1 → g.1 = f.1

instance (d : Disk N B) (encodes : B → Bool) (path : List N) (content : B) [DecidableEq B] :
    Decidable (d.Placeable encodes path content) :=
  decidable_of_iff (d.Free path.tail ∧ d.nodes path ≠ some .dir ∧ d.permits path = true ∧ encodes content = true)
    ⟨fun h => ⟨h.1, h.2.1, h.2.2.1, h.2.2.2⟩, fun h => ⟨h.above, h.notDir, h.permits, h.encodes⟩⟩

instance (encodes : B → Bool) (files : List (List N × B)) (d : Disk N B) [DecidableEq B] : Decidable (Fit encodes files d) :=
  decidable_of_iff ((∀ f ∈ files, d.Placeable encodes f.1 f.2) ∧ ∀ f ∈ files, ∀ g ∈ files, g.1 <:+ f.1 → g.1 = f.1)
    ⟨fun h => ⟨h.1, h.2⟩, fun h => ⟨h.each, h.apart⟩⟩

/-! ## One file -/

theorem lastOf_cons (f : List N × B) (files : List (List N × B)) (path : List N) :
    lastOf (f :: files) path = (lastOf files path).or (if f.1 = path then some f.2 else none) := by
  unfold lastOf
  rw [List.reverse_cons, List.find?_append]
  cases files.reverse.find? (fun f => f.1 = path) with
  | some g => rfl
  | none =>
    by_cases hf : f.1 = path
    · simp [hf]
    · simp [hf]

theorem laid_single (path : List N) (content : B) (nodes : List N → Option (Node B)) (a : List N) :
    laid [(path, content)] nodes a = if a = path then some (.file content)
      else if a <:+ path ∧ nodes a = none then some .dir else nodes a := by
  rw [laid, lastOf_cons]
  by_cases ha : a = path
  · rw [if_pos ha.symm, if_pos ha]
    rfl
  · rw [if_neg (fun h => ha h.symm), if_neg ha]
    simp [lastOf]

/-- **Files laid one after the other** are laid together. -/
theorem laid_cons (f : List N × B) (files : List (List N × B)) (nodes : List N → Option (Node B)) :
    laid (f :: files) nodes = laid files (laid [f] nodes) := by
  funext a
  rw [laid, laid, lastOf_cons]
  cases lastOf files a with
  | some content => rfl
  | none =>
    rw [laid_single f.1 f.2 nodes a]
    by_cases ha : a = f.1
    · rw [if_pos ha, if_pos ha.symm]
      simp
    · rw [if_neg ha, if_neg (fun h => ha h.symm)]
      have hsplit : (∃ g ∈ f :: files, a <:+ g.1) ↔ a <:+ f.1 ∨ ∃ g ∈ files, a <:+ g.1 :=
        List.exists_mem_cons_iff _ f files
      by_cases hfirst : a <:+ f.1 ∧ nodes a = none
      · rw [if_pos hfirst]
        exact (if_pos ⟨hsplit.2 (Or.inl hfirst.1), hfirst.2⟩).trans (if_neg (fun h => by cases h.2)).symm
      · rw [if_neg hfirst]
        refine if_congr ⟨fun h => ⟨?_, h.2⟩, fun h => ⟨hsplit.2 (Or.inr h.1), h.2⟩⟩ rfl rfl
        exact (hsplit.1 h.1).resolve_left (fun hs => hfirst ⟨hs, h.2⟩)

variable {nameable : N → Bool} {d : Disk N B} {encodes : B → Bool}

/-- What placing a file does. -/
structure Placed (files : List (List N × B)) (d d' : Disk N B) : Prop extends Grows d d' where
  nodes : d'.nodes = laid files d.nodes

omit [DecidableEq N] in
theorem suffix_tail_iff {a path : List N} (h : path ≠ []) : a <:+ path.tail ↔ a <:+ path ∧ a ≠ path := by
  cases path with
  | nil => exact absurd rfl h
  | cons name up =>
    refine ⟨fun ha => ⟨suffix_tail ha, ?_⟩, fun ha => (List.suffix_cons_iff.1 ha.1).resolve_left ha.2⟩
    rintro rfl
    exact not_suffix_cons name up ha

omit [DecidableEq N] in
theorem Placeable.ne_nil {path : List N} {content : B} (h : d.Placeable encodes path content) : path ≠ [] := by
  rintro rfl
  exact h.notDir d.root

theorem place_grows (d : Disk N B) (encodes : B → Bool) (blank : B) (path : List N) (content : B) :
    Grows d (d.place encodes blank path content).2 ∧ ((d.place encodes blank path content).1 = .ok () →
      d.log.length < (d.place encodes blank path content).2.log.length) := by
  have hmake := makeDirs_grows path.tail d
  unfold place
  split
  · rename_i heq
    rw [heq] at hmake
    exact ⟨hmake, fun h => by cases h⟩
  · rename_i d' heq
    rw [heq] at hmake
    have hwrite := writeText_grows d' encodes blank path content
    exact ⟨hmake.trans hwrite.1, fun h => Nat.lt_of_le_of_lt hmake.log.length_le (hwrite.2 h)⟩

/-- Directories made above a path leave the path as it was. -/
theorem Opened.nodes_self {path : List N} {d' : Disk N B} (h : Opened path.tail d d') (hne : path ≠ []) :
    d'.nodes path = d.nodes path := by
  rw [h.nodes, if_neg (fun hc => ((suffix_tail_iff hne).1 hc.1).2 rfl)]

theorem place_placeable {path : List N} {content : B} (blank : B) (hp : Plain d.links nameable path)
    (h : d.Placeable encodes path content) :
    ∃ d', d.place encodes blank path content = (.ok (), d') ∧ Placed [(path, content)] d d' := by
  obtain ⟨d', hmake, ho⟩ := makeDirs_free hp.tail h.above
  have hsame := ho.nodes_self h.ne_nil
  have hw : d'.Writable encodes path content :=
    ⟨ho.dirs h.above, by rw [hsame]; exact h.notDir, by rw [ho.permits]; exact h.permits, h.encodes⟩
  obtain ⟨d'', hwrite, hfill⟩ := writeText_writable blank (ho.links ▸ hp) hw
  refine ⟨d'', by rw [place, hmake]; exact hwrite, ho.toGrows.trans hfill.toGrows, ?_⟩
  funext a
  rw [hfill.nodes, laid_single]
  by_cases ha : a = path
  · rw [ha, Function.update_self, if_pos rfl]
  · have htail : a <:+ path.tail ↔ a <:+ path := (suffix_tail_iff h.ne_nil).trans (and_iff_left ha)
    rw [Function.update_of_ne ha, if_neg ha, ho.nodes a, if_congr (and_congr_left' htail) rfl rfl]

/-- **A file can be placed exactly when nothing stands in its way.** -/
theorem place_ok_iff (encodes : B → Bool) (blank : B) {path : List N} (content : B) (hp : Plain d.links nameable path) :
    (d.place encodes blank path content).1 = .ok () ↔ d.Placeable encodes path content := by
  constructor
  · intro h
    unfold place at h
    split at h
    · cases h
    · rename_i u d' hmake
      obtain ⟨hfree, ho⟩ := opened_of_makeDirs hp.tail hmake
      have hw := (writeText_ok_iff (ho.links ▸ hp)).1 h
      have hne : path ≠ [] := by
        rintro rfl
        exact hw.notDir d'.root
      have hsame := ho.nodes_self hne
      exact ⟨hfree, by rw [← hsame]; exact hw.notDir, by rw [← ho.permits]; exact hw.permits, hw.encodes⟩
  · intro h
    obtain ⟨d', hplace, -⟩ := place_placeable blank hp h
    rw [hplace]

/-! ## Many files -/

section Beside

-- `f` was placed between `d` and `d'`
variable {f : List N × B} {d' : Disk N B}

theorem Placed.nodes_at (ho : Placed [f] d d') (a : List N) :
    d'.nodes a = if a = f.1 then some (.file f.2)
      else if a <:+ f.1 ∧ d.nodes a = none then some .dir else d.nodes a := by
  rw [ho.nodes]
  exact laid_single f.1 f.2 d.nodes a

/-- A path is free beside a file that was free before it and is not under it. -/
theorem Placed.free_iff (hf : d.Placeable encodes f.1 f.2) (ho : Placed [f] d d') (path : List N) :
    d'.Free path ↔ d.Free path ∧ ¬ f.1 <:+ path := by
  constructor
  · intro h
    have hfile : ¬ f.1 <:+ path := by
      intro hs
      have hnode := h f.1 hs
      rw [ho.nodes_at, if_pos rfl] at hnode
      rcases hnode with hc | ⟨hc, -⟩ <;> cases hc
    refine ⟨fun a ha => ?_, hfile⟩
    have hne : a ≠ f.1 := fun he => hfile (he ▸ ha)
    have hnode := h a ha
    rw [ho.nodes_at, if_neg hne, ho.permits] at hnode
    by_cases hc : a <:+ f.1 ∧ d.nodes a = none
    · exact hf.above a ((suffix_tail_iff hf.ne_nil).2 ⟨hc.1, hne⟩)
    · rwa [if_neg hc] at hnode
  · rintro ⟨h, hfile⟩ a ha
    have hne : a ≠ f.1 := fun he => hfile (he ▸ ha)
    rw [ho.nodes_at, if_neg hne, ho.permits]
    split
    · exact Or.inl rfl
    · exact h a ha

/-- The directories that are there beside a file are those that were, and those above it. -/
theorem Placed.dir_iff (hf : d.Placeable encodes f.1 f.2) (ho : Placed [f] d d') (path : List N) :
    d'.nodes path = some .dir ↔ d.nodes path = some .dir ∨ (path <:+ f.1 ∧ path ≠ f.1) := by
  rw [ho.nodes_at]
  by_cases hne : path = f.1
  · rw [if_pos hne]
    refine iff_of_false (fun h => by cases h) ?_
    rintro (h | h)
    · exact hf.notDir (hne ▸ h)
    · exact h.2 hne
  · rw [if_neg hne]
    by_cases hs : path <:+ f.1
    · refine iff_of_true ?_ (Or.inr ⟨hs, hne⟩)
      rcases hf.above path ((suffix_tail_iff hf.ne_nil).2 ⟨hs, hne⟩) with hn | ⟨hn, -⟩
      · rw [if_neg (fun hc => by rw [hn] at hc; cases hc.2), hn]
      · rw [if_pos ⟨hs, hn⟩]
    · rw [if_neg (fun hc => hs hc.1), or_iff_left (fun hc => hs hc.1)]

/-- **What a file needs beside another**: what it needs without it, and neither to be above the other. -/
theorem Placed.placeable_iff (hf : d.Placeable encodes f.1 f.2) (ho : Placed [f] d d') (path : List N) (content : B) :
    d'.Placeable encodes path content ↔
      d.Placeable encodes path content ∧ (f.1 <:+ path → f.1 = path) ∧ (path <:+ f.1 → path = f.1) := by
  constructor
  · intro h
    obtain ⟨hfree, hunder⟩ := (Placed.free_iff hf ho path.tail).1 h.above
    have hdir := fun hc => h.notDir ((Placed.dir_iff hf ho path).2 hc)
    refine ⟨⟨hfree, fun hc => hdir (Or.inl hc), ho.permits ▸ h.permits, h.encodes⟩, fun hs => ?_, fun hs => ?_⟩
    · by_contra hne
      exact hunder ((suffix_tail_iff h.ne_nil).2 ⟨hs, hne⟩)
    · by_contra hne
      exact hdir (Or.inr ⟨hs, hne⟩)
  · rintro ⟨h, hunder, habove⟩
    refine ⟨(Placed.free_iff hf ho path.tail).2 ⟨h.above, fun hs => ?_⟩, fun hdir => ?_, ho.permits ▸ h.permits, h.encodes⟩
    · obtain ⟨hs', hne⟩ := (suffix_tail_iff h.ne_nil).1 hs
      exact hne (hunder hs')
    · rcases (Placed.dir_iff hf ho path).1 hdir with hd | ⟨hs, hne⟩
      · exact h.notDir hd
      · exact hne (habove hs)

end Beside

/-- **The first file out of the way**: the others fit after it exactly when all fit before it. -/
theorem fit_cons_iff {f : List N × B} {files : List (List N × B)} {d' : Disk N B} (hf : d.Placeable encodes f.1 f.2)
    (ho : Placed [f] d d') : Fit encodes (f :: files) d ↔ Fit encodes files d' := by
  constructor
  · intro h
    refine ⟨fun g hg => ?_, fun g hg g' hg' => h.apart g (List.mem_cons_of_mem f hg) g' (List.mem_cons_of_mem f hg')⟩
    have hmem := List.mem_cons_of_mem f hg
    exact (Placed.placeable_iff hf ho g.1 g.2).2
      ⟨h.each g hmem, h.apart g hmem f List.mem_cons_self, h.apart f List.mem_cons_self g hmem⟩
  · intro h
    have hbeside : ∀ g ∈ files, _ := fun g hg => (Placed.placeable_iff hf ho g.1 g.2).1 (h.each g hg)
    refine ⟨List.forall_mem_cons.2 ⟨hf, fun g hg => (hbeside g hg).1⟩, List.forall_mem_cons.2 ⟨?_, fun g hg => ?_⟩⟩
    · exact List.forall_mem_cons.2 ⟨fun _ => rfl, fun g hg => (hbeside g hg).2.2⟩
    · exact List.forall_mem_cons.2 ⟨(hbeside g hg).2.1, fun g' hg' => h.apart g hg g' hg'⟩

/-- **Files can be placed exactly when they fit**, and then they are laid. -/
theorem placeAll_spec (blank : B) : ∀ (files : List (List N × B)) (d : Disk N B),
    (∀ f ∈ files, Plain d.links nameable f.1) →
      ((placeAll encodes blank files d).1 = .ok () ↔ Fit encodes files d) ∧
      (Fit encodes files d → Placed files d (placeAll encodes blank files d).2)
  | [], d, _ => by
    have hnone : ∀ f : List N × B, f ∉ [] := fun f hf => by cases hf
    refine ⟨iff_of_true rfl ⟨fun f hf => absurd hf (hnone f), fun f hf => absurd hf (hnone f)⟩, fun _ =>
      ⟨Grows.refl d, ?_⟩⟩
    funext a
    simp [laid, lastOf, placeAll]
  | f :: files, d, hp => by
    have hfirst := place_ok_iff encodes blank f.2 (hp f List.mem_cons_self)
    by_cases hf : d.Placeable encodes f.1 f.2
    · obtain ⟨d', hplace, ho⟩ := place_placeable blank (hp f List.mem_cons_self) hf
      have hrest : placeAll encodes blank (f :: files) d = placeAll encodes blank files d' := by
        rw [placeAll, hplace]
      obtain ⟨hok, hlaid⟩ := placeAll_spec blank files d'
        (fun g hg => ho.links ▸ hp g (List.mem_cons_of_mem f hg))
      rw [hrest, fit_cons_iff hf ho]
      refine ⟨hok, fun h => ⟨ho.toGrows.trans (hlaid h).toGrows, ?_⟩⟩
      rw [(hlaid h).nodes, ho.nodes, laid_cons f files d.nodes]
    · have hno : ¬ Fit encodes (f :: files) d := fun h => hf (h.each f List.mem_cons_self)
      refine ⟨iff_of_false (fun h => ?_) hno, fun h => absurd h hno⟩
      rw [placeAll] at h
      cases hplace : d.place encodes blank f.1 f.2 with
      | mk outcome d' =>
        cases outcome with
        | ok u =>
          refine hf (hfirst.1 ?_)
          rw [hplace]
        | error e =>
          rw [hplace] at h
          cases h

end Disk
end Lib
