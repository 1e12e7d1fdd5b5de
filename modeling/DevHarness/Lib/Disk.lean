import DevHarness.Lib.RealPath
import Mathlib.Data.List.Infix
/-!
# Disk — directories, files and links, and the calls that make and write them

The system follows links itself (`Disk.lookup`, at most forty in one call); `resolve` is `Path.resolve` as in Python 3.11,
`makeDirs` is `Path.mkdir` with parents, `writeText` is `Path.write_text`.  On a path with no link on it a lookup walks from
directory to directory, so the calls succeed exactly when nothing stands in the way (`makeDirs_ok_iff`, `writeText_ok_iff`),
and no call makes or removes a link.
-/
namespace Lib

universe u v

inductive Node (B : Type v) where
  | dir
  | file (content : B)
  deriving DecidableEq

/-- What has been done to a path. -/
inductive Touch (N : Type u) where
  | made (path : List N)
  | wrote (path : List N)
  deriving DecidableEq

structure Disk (N : Type u) (B : Type v) where
  links : Links N
  nodes : List N → Option (Node B)
  root : nodes [] = some .dir
  -- what the system lets be made or written: permissions, lengths of names, space
  permits : List N → Bool
  log : List (Touch N)

inductive OsError where
  | notFound
  | notADirectory
  | fileExists
  | isADirectory
  | loop
  | refused
  -- the content has no encoding
  | encoding
  deriving DecidableEq, Repr

/-- What the system finds under a path. -/
inductive Lookup (N : Type u) where
  | found (path : List N)
  -- nothing, in a directory
  | missing (path : List N)
  | noEntry
  | notADirectory
  | loop
  deriving DecidableEq

inductive ResolveError where
  -- `ValueError`: a name no system call takes
  | value
  -- `RuntimeError`: links without end
  | runtime
  deriving DecidableEq, Repr

namespace Disk

variable {N : Type u} {B : Type v} [DecidableEq N]

/-- Forward from a directory; `follow` goes on where a link leads. -/
def walkSteps (d : Disk N B) (follow : List (Step N) → List N → Lookup N) : List (Step N) → List N → Lookup N
  | [], path => .found path
  | .up :: rest, path => walkSteps d follow rest path.tail
  | .down name :: rest, path => match linkAt d.links (name :: path) with
    | some target => follow (target.steps ++ rest) (if target.absolute = true then [] else path)
    | none => match d.nodes (name :: path) with
      | some .dir => walkSteps d follow rest (name :: path)
      | some (.file _) => if rest = [] then .found (name :: path) else .notADirectory
      | none => if rest = [] then .missing (name :: path) else .noEntry

def walk (d : Disk N B) : Nat → List (Step N) → List N → Lookup N
  | 0 => d.walkSteps (fun _ _ => .loop)
  | links + 1 => d.walkSteps (d.walk links)

omit [DecidableEq N] in
/-- The steps to a path from the root. -/
def stepsTo (path : List N) : List (Step N) := path.reverse.map Step.down

def lookup (d : Disk N B) (path : List N) : Lookup N := d.walk 40 (stepsTo path) []

omit [DecidableEq N] in
/-- `normpath` of a path and steps after it. -/
def normalise : List N → List (Step N) → List N
  | path, [] => path
  | path, .up :: rest => normalise path.tail rest
  | path, .down name :: rest => normalise (name :: path) rest

/-- `Path.resolve`, the part after `realpath`: a `stat` tells whether links go on without end. -/
def stat (d : Disk N B) (nameable : N → Bool) (path : List N) : Except ResolveError (List N) :=
  if path.any (fun name => nameable name = false) = true then .error .value
  else if d.lookup path = .loop then .error .runtime
  else .ok path

def resolve (d : Disk N B) (nameable : N → Bool) (target : Target N) : Except ResolveError (List N) :=
  match realPath d.links nameable target with
  | .reached path => d.stat nameable path
  | .loop path rest => d.stat nameable (normalise path rest)
  | .unnameable => .error .value

def put (d : Disk N B) (name : N) (up : List N) (node : Node B) (touch : Touch N) : Disk N B :=
  { d with
    nodes := Function.update d.nodes (name :: up) (some node)
    root := by rw [Function.update_of_ne (List.cons_ne_nil name up).symm]; exact d.root
    log := d.log ++ [touch] }

def dirAt (d : Disk N B) (path : List N) : Bool :=
  match d.nodes path with
  | some .dir => true
  | _ => false

omit [DecidableEq N] in
theorem dirAt_iff {d : Disk N B} {path : List N} : d.dirAt path = true ↔ d.nodes path = some .dir := by
  unfold dirAt
  cases d.nodes path with
  | none => simp
  | some node => cases node <;> simp

/-- `os.mkdir`. -/
def mkdir (d : Disk N B) (name : N) (up : List N) : Except OsError (Disk N B) :=
  match d.lookup up with
  | .found place =>
    if d.dirAt place = true then
      if (linkAt d.links (name :: place)).isSome ∨ (d.nodes (name :: place)).isSome then .error .fileExists
      else if d.permits (name :: place) = true then .ok (d.put name place .dir (.made (name :: place)))
      else .error .refused
    else .error .notADirectory
  | .missing _ => .error .notFound
  | .noEntry => .error .notFound
  | .notADirectory => .error .notADirectory
  | .loop => .error .loop

def isDir (d : Disk N B) (path : List N) : Bool :=
  match d.lookup path with
  | .found place => d.dirAt place
  | _ => false

/-- `Path.mkdir(exist_ok=True)`. -/
def mkdirExistOk (d : Disk N B) (name : N) (up : List N) : Except OsError Unit × Disk N B :=
  match d.mkdir name up with
  | .ok d' => (.ok (), d')
  | .error e => (if d.isDir (name :: up) = true then .ok () else .error e, d)

/-- `Path.mkdir(parents=True, exist_ok=True)`. -/
def makeDirs : List N → Disk N B → Except OsError Unit × Disk N B
  | [], d => (.ok (), d)
  | name :: up, d => match d.mkdir name up with
    | .error .notFound => match makeDirs up d with
      | (.error e, d') => (.error e, d')
      | (.ok _, d') => d'.mkdirExistOk name up
    | _ => d.mkdirExistOk name up

/-- Opening truncates or makes the file; content that cannot be encoded leaves it `blank`. -/
def fill (d : Disk N B) (encodes : B → Bool) (blank : B) (name : N) (up : List N) (content : B) :
    Except OsError Unit × Disk N B :=
  if d.permits (name :: up) = false then (.error .refused, d)
  else if encodes content = true then (.ok (), d.put name up (.file content) (.wrote (name :: up)))
  else (.error .encoding, d.put name up (.file blank) (.wrote (name :: up)))

/-- `Path.write_text`. -/
def writeText (d : Disk N B) (encodes : B → Bool) (blank : B) (path : List N) (content : B) :
    Except OsError Unit × Disk N B :=
  match d.lookup path with
  | .found (name :: up) =>
    if d.dirAt (name :: up) = true then (.error .isADirectory, d) else d.fill encodes blank name up content
  | .found [] => (.error .isADirectory, d)
  | .missing (name :: up) => d.fill encodes blank name up content
  | .missing [] => (.error .notFound, d)
  | .noEntry => (.error .notFound, d)
  | .notADirectory => (.error .notADirectory, d)
  | .loop => (.error .loop, d)

/-! ## What every call leaves -/

/-- No call makes or removes a link, and what has been done stays done. -/
structure Grows (d d' : Disk N B) : Prop where
  links : d'.links = d.links
  permits : d'.permits = d.permits
  log : d.log <+: d'.log

omit [DecidableEq N] in
theorem Grows.refl (d : Disk N B) : Grows d d := ⟨rfl, rfl, List.prefix_rfl⟩

omit [DecidableEq N] in
theorem Grows.trans {d d' d'' : Disk N B} (h : Grows d d') (h' : Grows d' d'') : Grows d d'' :=
  ⟨h'.links.trans h.links, h'.permits.trans h.permits, h.log.trans h'.log⟩

theorem grows_put (d : Disk N B) (name : N) (up : List N) (node : Node B) (touch : Touch N) :
    Grows d (d.put name up node touch) := ⟨rfl, rfl, List.prefix_append _ _⟩

theorem mkdir_grows {d d' : Disk N B} {name : N} {up : List N} (h : d.mkdir name up = .ok d') : Grows d d' := by
  unfold mkdir at h
  split at h
  · split at h
    · split at h
      · cases h
      · split at h
        · cases h
          exact grows_put _ _ _ _ _
        · cases h
    · cases h
  all_goals cases h

theorem mkdirExistOk_grows (d : Disk N B) (name : N) (up : List N) : Grows d (d.mkdirExistOk name up).2 := by
  unfold mkdirExistOk
  split
  · exact mkdir_grows (by assumption)
  · exact Grows.refl d

theorem makeDirs_grows : ∀ (path : List N) (d : Disk N B), Grows d (makeDirs path d).2
  | [], d => Grows.refl d
  | name :: up, d => by
    rw [makeDirs]
    split
    · have ih := makeDirs_grows up d
      split
      · rename_i hmake
        rw [hmake] at ih
        exact ih
      · rename_i d' hmake
        rw [hmake] at ih
        exact ih.trans (mkdirExistOk_grows d' name up)
    · exact mkdirExistOk_grows d name up

theorem fill_grows (d : Disk N B) (encodes : B → Bool) (blank : B) (name : N) (up : List N) (content : B) :
    Grows d (d.fill encodes blank name up content).2 := by
  unfold fill
  split
  · exact Grows.refl d
  · split <;> exact grows_put _ _ _ _ _

/-- **A file is written by writing**: the log is longer after a write that succeeds. -/
theorem writeText_grows (d : Disk N B) (encodes : B → Bool) (blank : B) (path : List N) (content : B) :
    Grows d (d.writeText encodes blank path content).2 ∧ ((d.writeText encodes blank path content).1 = .ok () →
      d.log.length < (d.writeText encodes blank path content).2.log.length) := by
  have hfill : ∀ name up, (d.fill encodes blank name up content).1 = .ok () →
      d.log.length < (d.fill encodes blank name up content).2.log.length := by
    intro name up h
    unfold fill at h ⊢
    split at h
    · cases h
    · rename_i hpermit
      rw [if_neg hpermit]
      split at h
      · rename_i hencodes
        rw [if_pos hencodes]
        simp [put]
      · cases h
  unfold writeText
  split
  · split
    · exact ⟨Grows.refl d, fun h => by cases h⟩
    · exact ⟨fill_grows _ _ _ _ _ _, hfill _ _⟩
  · exact ⟨Grows.refl d, fun h => by cases h⟩
  · exact ⟨fill_grows _ _ _ _ _ _, hfill _ _⟩
  all_goals exact ⟨Grows.refl d, fun h => by cases h⟩

/-! ## Lookups on a path with no link -/

/-- All of a path is directories. -/
def Dirs (d : Disk N B) (path : List N) : Prop := ∀ a, a <:+ path → d.nodes a = some .dir

/-- A path is free to be made: all of it is directories, or missing and permitted. -/
def Free (d : Disk N B) (path : List N) : Prop :=
  ∀ a, a <:+ path → d.nodes a = some .dir ∨ (d.nodes a = none ∧ d.permits a = true)

instance (d : Disk N B) (path : List N) [DecidableEq B] : Decidable (d.Free path) :=
  decidable_of_iff (∀ a ∈ path.tails, d.nodes a = some .dir ∨ (d.nodes a = none ∧ d.permits a = true))
    (forall_congr' fun a => by rw [List.mem_tails])

omit [DecidableEq N] in
theorem dirs_nil (d : Disk N B) : d.Dirs [] := fun a ha => by rw [List.suffix_nil.1 ha]; exact d.root

omit [DecidableEq N] in
theorem free_nil (d : Disk N B) : d.Free [] := fun a ha => Or.inl (by rw [List.suffix_nil.1 ha]; exact d.root)

omit [DecidableEq N] in
/-- What holds of a path and of all it lies under holds of all its suffixes. -/
theorem forall_suffix_cons {p : List N → Prop} {name : N} {up : List N} :
    (∀ a, a <:+ name :: up → p a) ↔ p (name :: up) ∧ ∀ a, a <:+ up → p a := by
  constructor
  · exact fun h => ⟨h _ List.suffix_rfl, fun a ha => h a (ha.trans (List.suffix_cons name up))⟩
  · rintro ⟨hn, hup⟩ a ha
    rcases List.suffix_cons_iff.1 ha with rfl | ha
    · exact hn
    · exact hup a ha

omit [DecidableEq N] in
theorem dirs_cons {d : Disk N B} {name : N} {up : List N} :
    d.Dirs (name :: up) ↔ d.nodes (name :: up) = some .dir ∧ d.Dirs up :=
  forall_suffix_cons

omit [DecidableEq N] in
theorem free_cons {d : Disk N B} {name : N} {up : List N} : d.Free (name :: up) ↔
    (d.nodes (name :: up) = some .dir ∨ (d.nodes (name :: up) = none ∧ d.permits (name :: up) = true)) ∧ d.Free up :=
  forall_suffix_cons

variable {nameable : N → Bool} {d : Disk N B}

omit [DecidableEq N] in
theorem stepsTo_cons (name : N) (up : List N) : stepsTo (name :: up) = stepsTo up ++ [.down name] := by
  rw [stepsTo, List.reverse_cons, List.map_append]
  rfl

/-- **Along directories a walk goes on.** -/
theorem walkSteps_dirs (follow : List (Step N) → List N → Lookup N) : ∀ {path : List N}, Plain d.links nameable path →
    d.Dirs path → ∀ rest, d.walkSteps follow (stepsTo path ++ rest) [] = d.walkSteps follow rest path
  | [], _, _, _ => rfl
  | name :: up, hp, hd, rest => by
    rw [dirs_cons] at hd
    rw [stepsTo_cons, List.append_assoc, walkSteps_dirs follow hp.up hd.2, List.singleton_append, walkSteps,
      hp.linkFree _ List.suffix_rfl (List.cons_ne_nil name up), hd.1]

/-- **Off directories a walk stops** before its last step. -/
theorem walkSteps_stops (follow : List (Step N) → List N → Lookup N) : ∀ {path : List N}, Plain d.links nameable path →
    ¬ d.Dirs path → ∀ rest, rest ≠ [] →
      (d.walkSteps follow (stepsTo path ++ rest) [] = .noEntry ∨
        d.walkSteps follow (stepsTo path ++ rest) [] = .notADirectory) ∧
      (d.Free path → d.walkSteps follow (stepsTo path ++ rest) [] = .noEntry)
  | [], _, hd, _, _ => absurd (dirs_nil d) hd
  | name :: up, hp, hd, rest, hrest => by
    rw [stepsTo_cons, List.append_assoc, List.singleton_append]
    by_cases hup : d.Dirs up
    · have hno : d.nodes (name :: up) ≠ some .dir := fun h => hd (dirs_cons.2 ⟨h, hup⟩)
      rw [walkSteps_dirs follow hp.up hup, walkSteps, hp.linkFree _ List.suffix_rfl (List.cons_ne_nil name up)]
      cases hn : d.nodes (name :: up) with
      | none => exact ⟨Or.inl (if_neg hrest), fun _ => if_neg hrest⟩
      | some node =>
        cases node with
        | dir => exact absurd hn hno
        | file content =>
          refine ⟨Or.inr (if_neg hrest), fun hfree => ?_⟩
          rcases (free_cons.1 hfree).1 with h | ⟨h, -⟩
          · exact absurd h hno
          · rw [hn] at h
            cases h
    · have ih := walkSteps_stops follow hp.up hup (.down name :: rest) (List.cons_ne_nil _ _)
      exact ⟨ih.1, fun hfree => ih.2 (free_cons.1 hfree).2⟩

theorem lookup_eq (d : Disk N B) (path : List N) : d.lookup path = d.walkSteps (d.walk 39) (stepsTo path) [] := rfl

theorem lookup_dirs {path : List N} (hp : Plain d.links nameable path) (hd : d.Dirs path) : d.lookup path = .found path := by
  have h := walkSteps_dirs (d.walk 39) hp hd []
  rw [List.append_nil] at h
  exact h

/-- **A lookup below directories** tells whether anything is there. -/
theorem lookup_below {name : N} {up : List N} (hp : Plain d.links nameable (name :: up)) (hd : d.Dirs up) :
    d.lookup (name :: up) = if d.nodes (name :: up) = none then .missing (name :: up) else .found (name :: up) := by
  rw [lookup_eq, stepsTo_cons, walkSteps_dirs _ hp.up hd, walkSteps,
    hp.linkFree _ List.suffix_rfl (List.cons_ne_nil name up)]
  cases d.nodes (name :: up) with
  | none => rfl
  | some node =>
    cases node with
    | dir => rfl
    | file content => rfl

theorem lookup_stops {name : N} {up : List N} (hp : Plain d.links nameable (name :: up)) (hd : ¬ d.Dirs up) :
    (d.lookup (name :: up) = .noEntry ∨ d.lookup (name :: up) = .notADirectory) ∧
      (d.Free up → d.lookup (name :: up) = .noEntry) := by
  rw [lookup_eq, stepsTo_cons]
  exact walkSteps_stops _ hp.up hd _ (List.cons_ne_nil _ _)

/-- **A lookup on a path with no link** comes to that path, or to nothing. -/
theorem lookup_plain {path : List N} (hp : Plain d.links nameable path) :
    d.lookup path = .found path ∨ d.lookup path = .missing path ∨ d.lookup path = .noEntry ∨
      d.lookup path = .notADirectory := by
  cases path with
  | nil => exact Or.inl rfl
  | cons name up =>
    by_cases hd : d.Dirs up
    · rw [lookup_below hp hd]
      split
      · exact Or.inr (Or.inl rfl)
      · exact Or.inl rfl
    · exact Or.inr (Or.inr (lookup_stops hp hd).1)

/-- **A path with no link resolves to itself.** -/
theorem stat_plain {path : List N} (hp : Plain d.links nameable path) : d.stat nameable path = .ok path := by
  have hnames : ¬ path.any (fun name => nameable name = false) = true := by
    rw [List.any_eq_true]
    rintro ⟨name, hmem, hno⟩
    rw [hp.nameable name hmem] at hno
    cases hno
  have hloop : d.lookup path ≠ .loop := by
    rcases lookup_plain hp with h | h | h | h <;> rw [h] <;> simp
  rw [stat, if_neg hnames, if_neg hloop]

theorem resolve_of_realPath {target : Target N} {path : List N} (h : realPath d.links nameable target = .reached path) :
    d.resolve nameable target = .ok path := by
  rw [resolve, h]
  exact stat_plain (plain_of_realPath h)

theorem isDir_iff {name : N} {up : List N} (hp : Plain d.links nameable (name :: up)) :
    d.isDir (name :: up) = true ↔ d.Dirs (name :: up) := by
  rw [dirs_cons, isDir]
  by_cases hd : d.Dirs up
  · rw [lookup_below hp hd]
    by_cases hn : d.nodes (name :: up) = none
    · rw [if_pos hn, hn]
      simp
    · rw [if_neg hn]
      simp [hd, dirAt_iff]
  · rcases (lookup_stops hp hd).1 with h | h <;> rw [h] <;> simp [hd]

/-! ## Making directories -/

theorem mkdir_dirs {name : N} {up : List N} (hp : Plain d.links nameable (name :: up)) (hd : d.Dirs up) :
    d.mkdir name up = if (d.nodes (name :: up)).isSome then .error .fileExists
      else if d.permits (name :: up) = true then .ok (d.put name up .dir (.made (name :: up))) else .error .refused := by
  rw [mkdir, lookup_dirs hp.up hd]
  dsimp only
  rw [if_pos (dirAt_iff.2 (hd up List.suffix_rfl)), hp.linkFree _ List.suffix_rfl (List.cons_ne_nil name up)]
  simp only [Option.isSome_none, Bool.false_eq_true, false_or]

theorem mkdir_stops (name : N) {up : List N} (hp : Plain d.links nameable up) (hd : ¬ d.Dirs up) :
    (d.mkdir name up = .error .notFound ∨ d.mkdir name up = .error .notADirectory) ∧
      (d.Free up → d.mkdir name up = .error .notFound) := by
  unfold mkdir
  cases up with
  | nil => exact absurd (dirs_nil d) hd
  | cons m up =>
    by_cases hup : d.Dirs up
    · rw [lookup_below hp hup]
      have hno : d.nodes (m :: up) ≠ some .dir := fun h => hd (dirs_cons.2 ⟨h, hup⟩)
      by_cases hn : d.nodes (m :: up) = none
      · rw [if_pos hn]
        exact ⟨Or.inl rfl, fun _ => rfl⟩
      · rw [if_neg hn]
        dsimp only
        rw [if_neg (fun h => hno (dirAt_iff.1 h))]
        refine ⟨Or.inr rfl, fun hfree => ?_⟩
        rcases (free_cons.1 hfree).1 with h | ⟨h, -⟩
        · exact absurd h hno
        · exact absurd h hn
    · have hstop := lookup_stops hp hup
      constructor
      · rcases hstop.1 with h | h <;> rw [h]
        · exact Or.inl rfl
        · exact Or.inr rfl
      · intro hfree
        rw [hstop.2 (free_cons.1 hfree).2]

/-- **What making a path does**: what was missing of it is a directory. -/
structure Opened (path : List N) (d d' : Disk N B) : Prop extends Grows d d' where
  nodes : ∀ a, d'.nodes a = if a <:+ path ∧ d.nodes a = none then some .dir else d.nodes a

theorem opened_of_dirs {path : List N} (hd : d.Dirs path) : Opened path d d := by
  refine ⟨Grows.refl d, fun a => ?_⟩
  rw [if_neg]
  rintro ⟨ha, hn⟩
  rw [hd a ha] at hn
  cases hn

theorem Opened.dirs {path : List N} {d' : Disk N B} (h : Opened path d d') (hfree : d.Free path) : d'.Dirs path := by
  intro a ha
  rw [h.nodes a]
  rcases hfree a ha with hn | ⟨hn, -⟩
  · rw [if_neg (fun hc => by rw [hn] at hc; cases hc.2), hn]
  · rw [if_pos ⟨ha, hn⟩]

omit [DecidableEq N] in
theorem not_suffix_cons (name : N) (up : List N) : ¬ (name :: up) <:+ up := fun h => by
  have := h.length_le
  rw [List.length_cons] at this
  omega

/-- Making the last directory below directories. -/
theorem opened_put {name : N} {up : List N} (hd : d.Dirs up) (hn : d.nodes (name :: up) = none) :
    Opened (name :: up) d (d.put name up .dir (.made (name :: up))) := by
  refine ⟨grows_put d name up _ _, fun a => ?_⟩
  show Function.update d.nodes (name :: up) (some .dir) a = _
  by_cases ha : a = name :: up
  · rw [ha, Function.update_self, if_pos ⟨List.suffix_rfl, hn⟩]
  · rw [Function.update_of_ne ha, if_neg]
    rintro ⟨hs, hna⟩
    rw [hd a ((List.suffix_cons_iff.1 hs).resolve_left ha)] at hna
    cases hna

theorem Opened.trans {name : N} {up : List N} {d' d'' : Disk N B} (h : Opened up d d') (h' : Opened (name :: up) d' d'') :
    Opened (name :: up) d d'' := by
  refine ⟨h.toGrows.trans h'.toGrows, fun a => ?_⟩
  rw [h'.nodes a, h.nodes a]
  by_cases hup : a <:+ up
  · have hs : a <:+ name :: up := hup.trans (List.suffix_cons name up)
    cases d.nodes a <;> simp [hup, hs]
  · cases d.nodes a <;> simp [hup]

omit [DecidableEq N] in
theorem Dirs.free {path : List N} (h : d.Dirs path) : d.Free path := fun a ha => Or.inl (h a ha)

/-- The last name of a path can be made, all above it being directories. -/
def LastFree (d : Disk N B) (name : N) (up : List N) : Prop :=
  d.nodes (name :: up) = some .dir ∨ (d.nodes (name :: up) = none ∧ d.permits (name :: up) = true)

theorem Opened.lastFree {up : List N} {d' : Disk N B} (h : Opened up d d') (name : N) :
    d'.LastFree name up ↔ d.LastFree name up := by
  rw [LastFree, LastFree, h.nodes, if_neg (fun hc => not_suffix_cons name up hc.1), h.permits]

theorem mkdirExistOk_free {name : N} {up : List N} (hp : Plain d.links nameable (name :: up)) (hd : d.Dirs up)
    (hlast : d.LastFree name up) : ∃ d', d.mkdirExistOk name up = (.ok (), d') ∧ Opened (name :: up) d d' := by
  rw [mkdirExistOk, mkdir_dirs hp hd]
  rcases hlast with hn | ⟨hn, hpermit⟩
  · have hall : d.Dirs (name :: up) := dirs_cons.2 ⟨hn, hd⟩
    refine ⟨d, ?_, opened_of_dirs hall⟩
    rw [hn, (isDir_iff hp).2 hall]
    rfl
  · refine ⟨_, ?_, opened_put hd hn⟩
    rw [hn, hpermit]
    rfl

theorem lastFree_of_mkdirExistOk {name : N} {up : List N} (hp : Plain d.links nameable (name :: up)) (hd : d.Dirs up)
    (hok : (d.mkdirExistOk name up).1 = .ok ()) : d.LastFree name up := by
  have hdir : d.isDir (name :: up) = true → d.nodes (name :: up) = some .dir := fun h =>
    (isDir_iff hp).1 h _ List.suffix_rfl
  rw [mkdirExistOk, mkdir_dirs hp hd] at hok
  by_cases hisDir : d.isDir (name :: up) = true
  · exact Or.inl (hdir hisDir)
  · cases hn : d.nodes (name :: up) with
    | some node =>
      rw [hn, Option.isSome_some, if_pos rfl] at hok
      dsimp only at hok
      rw [if_neg hisDir] at hok
      cases hok
    | none =>
      refine Or.inr ⟨hn, ?_⟩
      by_contra hpermit
      rw [hn, if_neg (by simp), if_neg hpermit] at hok
      dsimp only at hok
      rw [if_neg hisDir] at hok
      cases hok

theorem makeDirs_of_dirs {name : N} {up : List N} (hp : Plain d.links nameable (name :: up)) (hd : d.Dirs up) :
    makeDirs (name :: up) d = d.mkdirExistOk name up := by
  rw [makeDirs]
  cases hmk : d.mkdir name up with
  | ok d' => rfl
  | error e =>
    cases e with
    | notFound =>
      rw [mkdir_dirs hp hd] at hmk
      split at hmk
      · cases hmk
      · split at hmk <;> cases hmk
    | _ => rfl

/-- **A path that is free is made.** -/
theorem makeDirs_free : ∀ {path : List N} {d : Disk N B}, Plain d.links nameable path → d.Free path →
    ∃ d', makeDirs path d = (.ok (), d') ∧ Opened path d d'
  | [], d, _, _ => ⟨d, rfl, opened_of_dirs (dirs_nil d)⟩
  | name :: up, d, hp, hfree => by
    obtain ⟨hlast, hup⟩ := free_cons.1 hfree
    by_cases hdirs : d.Dirs up
    · rw [makeDirs_of_dirs hp hdirs]
      exact mkdirExistOk_free hp hdirs hlast
    · obtain ⟨d', hmake, ho⟩ := makeDirs_free hp.up hup
      obtain ⟨d'', hmk, ho'⟩ := mkdirExistOk_free (ho.links ▸ hp) (ho.dirs hup) ((ho.lastFree name).2 hlast)
      refine ⟨d'', ?_, ho.trans ho'⟩
      rw [makeDirs, (mkdir_stops name hp.up hdirs).2 hup]
      dsimp only
      rw [hmake]
      exact hmk

/-- **A path that is made was free.** -/
theorem free_of_makeDirs : ∀ {path : List N} {d : Disk N B}, Plain d.links nameable path →
    (makeDirs path d).1 = .ok () → d.Free path
  | [], d, _, _ => free_nil d
  | name :: up, d, hp, hok => by
    by_cases hdirs : d.Dirs up
    · rw [makeDirs_of_dirs hp hdirs] at hok
      exact free_cons.2 ⟨lastFree_of_mkdirExistOk hp hdirs hok, hdirs.free⟩
    · rcases (mkdir_stops name hp.up hdirs).1 with hmk | hmk
      · rw [makeDirs, hmk] at hok
        dsimp only at hok
        cases hup : makeDirs up d with
        | mk outcome d' =>
          rw [hup] at hok
          cases outcome with
          | error e => cases hok
          | ok u =>
            have hfree := free_of_makeDirs hp.up (show (makeDirs up d).1 = .ok () by rw [hup])
            obtain ⟨d'', hmake, ho⟩ := makeDirs_free hp.up hfree
            rw [hup] at hmake
            cases hmake
            have hlast := lastFree_of_mkdirExistOk (ho.links ▸ hp) (ho.dirs hfree) hok
            exact free_cons.2 ⟨(ho.lastFree name).1 hlast, hfree⟩
      · -- a file stands above, so nothing is there either
        have hblocked : ¬ d.isDir (name :: up) = true := fun h => hdirs (dirs_cons.1 ((isDir_iff hp).1 h)).2
        rw [makeDirs, hmk] at hok
        dsimp only at hok
        rw [mkdirExistOk, hmk] at hok
        dsimp only at hok
        rw [if_neg hblocked] at hok
        cases hok

/-- **A path is made exactly when it was free.** -/
theorem makeDirs_ok_iff {path : List N} (hp : Plain d.links nameable path) :
    (makeDirs path d).1 = .ok () ↔ d.Free path := by
  refine ⟨free_of_makeDirs hp, fun h => ?_⟩
  obtain ⟨d', hmake, -⟩ := makeDirs_free hp h
  rw [hmake]

theorem opened_of_makeDirs {path : List N} {d' : Disk N B} (hp : Plain d.links nameable path)
    (h : makeDirs path d = (.ok (), d')) : d.Free path ∧ Opened path d d' := by
  have hfree : d.Free path := (makeDirs_ok_iff hp).1 (by rw [h])
  obtain ⟨d₁, hmake, ho⟩ := makeDirs_free hp hfree
  rw [h] at hmake
  cases hmake
  exact ⟨hfree, ho⟩

/-! ## Writing a file -/

/-- What a write needs: directories above, no directory in its place, leave to write, content with an encoding. -/
structure Writable (d : Disk N B) (encodes : B → Bool) (path : List N) (content : B) : Prop where
  above : d.Dirs path.tail
  notDir : d.nodes path ≠ some .dir
  permits : d.permits path = true
  encodes : encodes content = true

/-- **What a write does.** -/
structure Filled (path : List N) (content : B) (d d' : Disk N B) : Prop extends Grows d d' where
  nodes : d'.nodes = Function.update d.nodes path (some (.file content))

theorem writeText_writable {encodes : B → Bool} {path : List N} {content : B} (blank : B)
    (hp : Plain d.links nameable path) (h : d.Writable encodes path content) :
    ∃ d', d.writeText encodes blank path content = (.ok (), d') ∧ Filled path content d d' := by
  cases path with
  | nil => exact absurd d.root h.notDir
  | cons name up =>
    have hfill : d.fill encodes blank name up content =
        (.ok (), d.put name up (.file content) (.wrote (name :: up))) := by
      rw [fill, if_neg (by rw [h.permits]; simp), if_pos h.encodes]
    refine ⟨d.put name up (.file content) (.wrote (name :: up)), ?_, grows_put _ _ _ _ _, rfl⟩
    rw [writeText, lookup_below hp h.above]
    by_cases hn : d.nodes (name :: up) = none
    · rw [if_pos hn]
      exact hfill
    · rw [if_neg hn]
      dsimp only
      rw [if_neg (fun hdir => h.notDir (dirAt_iff.1 hdir))]
      exact hfill

theorem fill_ok {encodes : B → Bool} {blank content : B} {name : N} {up : List N}
    (h : (d.fill encodes blank name up content).1 = .ok ()) :
    d.permits (name :: up) = true ∧ encodes content = true := by
  unfold fill at h
  split at h
  · cases h
  · rename_i hpermit
    split at h
    · rename_i hencodes
      exact ⟨by simpa using hpermit, hencodes⟩
    · cases h

theorem writable_of_writeText {encodes : B → Bool} {blank content : B} {path : List N} (hp : Plain d.links nameable path)
    (h : (d.writeText encodes blank path content).1 = .ok ()) : d.Writable encodes path content := by
  cases path with
  | nil =>
    have hroot : d.lookup [] = .found [] := lookup_dirs hp (dirs_nil d)
    rw [writeText, hroot] at h
    cases h
  | cons name up =>
    unfold writeText at h
    by_cases hd : d.Dirs up
    · rw [lookup_below hp hd] at h
      by_cases hn : d.nodes (name :: up) = none
      · rw [if_pos hn] at h
        obtain ⟨hpermit, hencodes⟩ := fill_ok h
        exact ⟨hd, by rw [hn]; simp, hpermit, hencodes⟩
      · rw [if_neg hn] at h
        dsimp only at h
        by_cases hdir : d.dirAt (name :: up) = true
        · rw [if_pos hdir] at h
          cases h
        · rw [if_neg hdir] at h
          obtain ⟨hpermit, hencodes⟩ := fill_ok h
          exact ⟨hd, fun hno => hdir (dirAt_iff.2 hno), hpermit, hencodes⟩
    · rcases (lookup_stops hp hd).1 with hl | hl
      · rw [hl] at h
        cases h
      · rw [hl] at h
        cases h

/-- **A write succeeds exactly when nothing stands in its way.** -/
theorem writeText_ok_iff {encodes : B → Bool} {blank content : B} {path : List N} (hp : Plain d.links nameable path) :
    (d.writeText encodes blank path content).1 = .ok () ↔ d.Writable encodes path content := by
  refine ⟨writable_of_writeText hp, fun h => ?_⟩
  obtain ⟨d', hwrite, -⟩ := writeText_writable blank hp h
  rw [hwrite]

end Disk
end Lib
