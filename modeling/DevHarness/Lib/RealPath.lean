import DevHarness.Lib.Count
import Mathlib.Logic.Function.Basic
/-!
# RealPath — symbolic links followed by name (`os.path.realpath`, as in Python 3.11)

A path is the names on it, the last one first: its parents are its suffixes, and the root is empty.  `joinRealPath` follows
the links of a path one by one and remembers what each came to; a link met while it is being followed ends the search, and
the steps after it are left as they are written (`Joined.loop`).  A search that ends otherwise leaves no link on the path
(`plain_of_realPath`).  The depth is that of the recursion, and one level more than there are links is enough
(`joinRealPath_depth`).
-/
namespace Lib

universe u

/-- One step of a path as it is written: `..`, or a name. -/
inductive Step (N : Type u) where
  | up
  | down (name : N)
  deriving DecidableEq

/-- A path as it is written. -/
structure Target (N : Type u) where
  absolute : Bool
  steps : List (Step N)

/-- Where a search ended. -/
inductive Joined (N : Type u) where
  | reached (path : List N)
  -- a link that leads back to itself, and the steps after it
  | loop (path : List N) (rest : List (Step N))
  -- a name no system call takes
  | unnameable
  deriving DecidableEq

variable {N : Type u} [DecidableEq N]

abbrev Links (N : Type u) := List (List N × Target N)

def linkAt (links : Links N) (path : List N) : Option (Target N) :=
  (links.find? (fun l => l.1 = path)).map Prod.snd

/-- What has become of the links met: `some none` while one is being followed. -/
abbrev Seen (N : Type u) := List N → Option (Option (List N))

variable (links : Links N) (nameable : N → Bool)

/-- The loop of `_joinrealpath`; `jump` is its call of itself. -/
def joinNames (jump : Target N → List N → Seen N → Joined N × Seen N) :
    List (Step N) → List N → Seen N → Joined N × Seen N
  | [], path, seen => (.reached path, seen)
  | .up :: rest, path, seen => joinNames jump rest path.tail seen
  | .down name :: rest, path, seen =>
    if nameable name = false then (.unnameable, seen)
    else match linkAt links (name :: path) with
      | none => joinNames jump rest (name :: path) seen
      | some target => match seen (name :: path) with
        | some (some known) => joinNames jump rest known seen
        | some none => (.loop (name :: path) rest, seen)
        | none => match jump target path (Function.update seen (name :: path) (some none)) with
          | (.reached path', seen') => joinNames jump rest path' (Function.update seen' (name :: path) (some (some path')))
          | (.loop path' rest', seen') => (.loop path' (rest' ++ rest), seen')
          | (.unnameable, seen') => (.unnameable, seen')

/-- `_joinrealpath`. -/
def joinRealPath : Nat → Target N → List N → Seen N → Joined N × Seen N
  -- never reached from `realPath`
  | 0, target, path, seen => (.loop path target.steps, seen)
  | depth + 1, target, path, seen =>
    joinNames links nameable (joinRealPath depth) target.steps (if target.absolute = true then [] else path) seen

def realPath (target : Target N) : Joined N :=
  (joinRealPath links nameable (links.length + 1) target [] (fun _ => none)).1

/-- **A path with no link on it**, all of whose names the system takes. -/
structure Plain (path : List N) : Prop where
  linkFree : ∀ a, a <:+ path → a ≠ [] → linkAt links a = none
  nameable : ∀ name ∈ path, nameable name = true

variable {links nameable}

omit [DecidableEq N] in
theorem suffix_tail {a path : List N} (h : a <:+ path.tail) : a <:+ path := h.trans (List.tail_suffix path)

theorem plain_nil : Plain links nameable [] :=
  ⟨fun _ ha hne => absurd (List.suffix_nil.1 ha) hne, fun _ h => by cases h⟩

theorem Plain.tail {path : List N} (h : Plain links nameable path) : Plain links nameable path.tail :=
  ⟨fun a ha hne => h.linkFree a (suffix_tail ha) hne, fun name hn => h.nameable name (List.mem_of_mem_tail hn)⟩

theorem Plain.up {name : N} {path : List N} (h : Plain links nameable (name :: path)) : Plain links nameable path := h.tail

theorem Plain.cons {name : N} {path : List N} (h : Plain links nameable path) (hn : nameable name = true)
    (hl : linkAt links (name :: path) = none) : Plain links nameable (name :: path) := by
  refine ⟨fun a ha hne => ?_, fun m hm => ?_⟩
  · rcases List.suffix_cons_iff.1 ha with rfl | ha
    · exact hl
    · exact h.linkFree a ha hne
  · rcases List.mem_cons.1 hm with rfl | hm
    · exact hn
    · exact h.nameable m hm

/-! ## A search that ends leaves no link -/

/-- What the links known are known as has no link on it. -/
def SeenPlain (links : Links N) (nameable : N → Bool) (seen : Seen N) : Prop :=
  ∀ p q, seen p = some (some q) → Plain links nameable q

/-- The result of a search, and what it knows after. -/
def JoinedPlain (links : Links N) (nameable : N → Bool) (r : Joined N × Seen N) : Prop :=
  (∀ q, r.1 = .reached q → Plain links nameable q) ∧ SeenPlain links nameable r.2

theorem SeenPlain.update {seen : Seen N} (h : SeenPlain links nameable seen) (p : List N) {found : Option (List N)}
    (hfound : ∀ path, found = some path → Plain links nameable path) :
    SeenPlain links nameable (Function.update seen p (some found)) := by
  intro p' q hq
  by_cases hp : p' = p
  · rw [hp, Function.update_self] at hq
    exact hfound q (Option.some.inj hq)
  · rw [Function.update_of_ne hp] at hq
    exact h p' q hq

theorem joinNames_plain {jump : Target N → List N → Seen N → Joined N × Seen N}
    (hjump : ∀ t path seen, Plain links nameable path → SeenPlain links nameable seen →
      JoinedPlain links nameable (jump t path seen)) :
    ∀ (steps : List (Step N)) (path : List N) (seen : Seen N), Plain links nameable path →
      SeenPlain links nameable seen → JoinedPlain links nameable (joinNames links nameable jump steps path seen)
  | [], path, seen, hpath, hseen => by
    refine ⟨fun q hq => ?_, hseen⟩
    cases hq
    exact hpath
  | .up :: rest, path, seen, hpath, hseen => joinNames_plain hjump rest path.tail seen hpath.tail hseen
  | .down name :: rest, path, seen, hpath, hseen => by
    rw [joinNames]
    split
    · exact ⟨(fun q hq => by cases hq), hseen⟩
    · rename_i hn
      have hname : nameable name = true := by simpa using hn
      cases hl : linkAt links (name :: path) with
      | none => exact joinNames_plain hjump rest _ seen (hpath.cons hname hl) hseen
      | some target =>
        dsimp only
        cases hs : seen (name :: path) with
        | some known =>
          cases known with
          | some known => exact joinNames_plain hjump rest known seen (hseen _ _ hs) hseen
          | none => exact ⟨(fun q hq => by cases hq), hseen⟩
        | none =>
          dsimp only
          have hr := hjump target path _ hpath (hseen.update (name :: path) (fun _ hq => absurd hq.symm (Option.some_ne_none _)))
          cases hj : jump target path (Function.update seen (name :: path) (some none)) with
          | mk found seen' =>
            rw [hj] at hr
            cases found with
            | reached path' =>
              have hpath' := hr.1 path' rfl
              exact joinNames_plain hjump rest path' _ hpath' (hr.2.update (name :: path) (fun _ hq => Option.some.inj hq ▸ hpath'))
            | loop path' rest' => exact ⟨(fun q hq => by cases hq), hr.2⟩
            | unnameable => exact ⟨(fun q hq => by cases hq), hr.2⟩

theorem joinRealPath_plain : ∀ (depth : Nat) (t : Target N) (path : List N) (seen : Seen N),
    Plain links nameable path → SeenPlain links nameable seen →
      JoinedPlain links nameable (joinRealPath links nameable depth t path seen)
  | 0, _, _, _, _, hseen => ⟨(fun q hq => by cases hq), hseen⟩
  | depth + 1, t, path, seen, hpath, hseen => by
    rw [joinRealPath]
    refine joinNames_plain (joinRealPath_plain depth) t.steps _ seen ?_ hseen
    split
    · exact plain_nil
    · exact hpath

/-- **A search that ends leaves no link on its path.** -/
theorem plain_of_realPath {t : Target N} {path : List N} (h : realPath links nameable t = .reached path) :
    Plain links nameable path :=
  (joinRealPath_plain (links.length + 1) t [] (fun _ => none) plain_nil (fun _ _ hq => by cases hq)).1 path h

/-! ## The depth is enough -/

/-- The links not met yet. -/
def unmet (links : Links N) (seen : Seen N) : Nat := links.countP (fun l => (seen l.1).isNone)

/-- What has been met stays met. -/
def Remembers (seen seen' : Seen N) : Prop := ∀ p, seen p ≠ none → seen' p ≠ none

omit [DecidableEq N] in
theorem Remembers.unmet_le {seen seen' : Seen N} (h : Remembers seen seen') (links : Links N) :
    unmet links seen' ≤ unmet links seen := by
  refine List.countP_mono_left (fun l _ hl => ?_)
  rw [Option.isNone_iff_eq_none] at hl ⊢
  by_contra hne
  exact h l.1 hne hl

theorem remembers_update (seen : Seen N) (p : List N) (v : Option (List N)) :
    Remembers seen (Function.update seen p (some v)) := by
  intro p' hp'
  by_cases hp : p' = p
  · rw [hp, Function.update_self]
    simp
  · rw [Function.update_of_ne hp]
    exact hp'

theorem unmet_follow_lt {seen : Seen N} {p : List N} {t : Target N} (hl : linkAt links p = some t) (hs : seen p = none) :
    unmet links (Function.update seen p (some none)) < unmet links seen := by
  obtain ⟨l, hfind, -⟩ := Option.map_eq_some_iff.1 hl
  have hkey : l.1 = p := by simpa using List.find?_some hfind
  refine countP_lt_of_imp (a := l) ?_ ?_ links (List.mem_of_find?_eq_some hfind) (fun x _ hx => ?_)
  · rw [hkey, hs]
    rfl
  · rw [hkey, Function.update_self]
    simp
  · rw [Option.isNone_iff_eq_none] at hx ⊢
    by_contra hne
    exact remembers_update seen p none x.1 hne hx

theorem joinNames_remembers {jump : Target N → List N → Seen N → Joined N × Seen N}
    (hjump : ∀ t path seen, Remembers seen (jump t path seen).2) :
    ∀ (steps : List (Step N)) (path : List N) (seen : Seen N),
      Remembers seen (joinNames links nameable jump steps path seen).2
  | [], _, _ => fun _ h => h
  | .up :: rest, path, seen => joinNames_remembers hjump rest path.tail seen
  | .down name :: rest, path, seen => by
    rw [joinNames]
    split
    · exact fun _ h => h
    · cases linkAt links (name :: path) with
      | none => exact joinNames_remembers hjump rest _ seen
      | some target =>
        dsimp only
        cases seen (name :: path) with
        | some known =>
          cases known with
          | some known => exact joinNames_remembers hjump rest known seen
          | none => exact fun _ h => h
        | none =>
          dsimp only
          have hr := hjump target path (Function.update seen (name :: path) (some none))
          have hupdate := remembers_update seen (name :: path) none
          cases hj : jump target path (Function.update seen (name :: path) (some none)) with
          | mk found seen' =>
            rw [hj] at hr
            cases found with
            | reached path' =>
              have hrest := joinNames_remembers hjump rest path'
                (Function.update seen' (name :: path) (some (some path')))
              exact fun p hp => hrest p (remembers_update seen' _ _ p (hr p (hupdate p hp)))
            | loop path' rest' => exact fun p hp => hr p (hupdate p hp)
            | unnameable => exact fun p hp => hr p (hupdate p hp)

theorem joinRealPath_remembers : ∀ (depth : Nat) (t : Target N) (path : List N) (seen : Seen N),
    Remembers seen (joinRealPath links nameable depth t path seen).2
  | 0, _, _, _ => fun _ h => h
  | depth + 1, t, _, seen => joinNames_remembers (joinRealPath_remembers depth) t.steps _ seen

/-- Two calls that agree while fewer than `depth` links are unmet make loops that agree while as many as `depth` are. -/
theorem joinNames_congr {jump jump' : Target N → List N → Seen N → Joined N × Seen N} {depth : Nat}
    (hagree : ∀ t path seen, unmet links seen < depth → jump t path seen = jump' t path seen)
    (hjump : ∀ t path seen, Remembers seen (jump t path seen).2) :
    ∀ (steps : List (Step N)) (path : List N) (seen : Seen N), unmet links seen < depth + 1 →
      joinNames links nameable jump steps path seen = joinNames links nameable jump' steps path seen
  | [], _, _, _ => rfl
  | .up :: rest, path, seen, hlt => joinNames_congr hagree hjump rest path.tail seen hlt
  | .down name :: rest, path, seen, hlt => by
    rw [joinNames, joinNames]
    split
    · rfl
    · cases hl : linkAt links (name :: path) with
      | none => exact joinNames_congr hagree hjump rest _ seen hlt
      | some target =>
        dsimp only
        cases hs : seen (name :: path) with
        | some known =>
          cases known with
          | some known => exact joinNames_congr hagree hjump rest known seen hlt
          | none => rfl
        | none =>
          have hless := unmet_follow_lt hl hs
          dsimp only
          rw [← hagree target path _ (by omega)]
          have hr := (hjump target path (Function.update seen (name :: path) (some none))).unmet_le links
          cases hj : jump target path (Function.update seen (name :: path) (some none)) with
          | mk found seen' =>
            rw [hj] at hr
            dsimp only at hr
            cases found with
            | reached path' =>
              have hlearn := (remembers_update seen' (name :: path) (some path')).unmet_le links
              exact joinNames_congr hagree hjump rest path' _ (by omega)
            | loop path' rest' => rfl
            | unnameable => rfl

/-- **One level more than there are links to meet is enough**: deeper searches find the same. -/
theorem joinRealPath_depth : ∀ (depth : Nat) (t : Target N) (path : List N) (seen : Seen N), unmet links seen < depth →
    joinRealPath links nameable depth t path seen = joinRealPath links nameable (depth + 1) t path seen
  | 0, _, _, _, h => absurd h (Nat.not_lt_zero _)
  | depth + 1, t, path, seen, h => by
    rw [joinRealPath, joinRealPath]
    exact joinNames_congr (joinRealPath_depth depth) (joinRealPath_remembers depth) t.steps _ seen h

end Lib
