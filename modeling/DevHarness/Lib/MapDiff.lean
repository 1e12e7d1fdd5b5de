import Mathlib.Data.Finset.Insert
import Mathlib.Data.Finset.Erase
import Mathlib.Data.List.Nodup
/-!
# MapDiff — the changes between two finite maps, and replaying them on the keys

What happened to a key is told by its two values (`changeAt`).  A list describes the step from one map to another when it
names each changed key once, with its change; replayed on the keys of the first map it gives those of the second.
-/
namespace Lib

universe u v

inductive KeyChange where
  | modified
  | created
  | deleted
  deriving DecidableEq, Repr

variable {K : Type u} {V : Type v}

def changeAt [DecidableEq V] : Option V → Option V → Option KeyChange
  | none, none => none
  | none, some _ => some .created
  | some _, none => some .deleted
  | some a, some b => if a = b then none else some .modified

section ChangeAt
variable [DecidableEq V] {a b : Option V}

@[simp] theorem changeAt_eq_created : changeAt a b = some .created ↔ a = none ∧ b.isSome = true := by
  cases a <;> cases b <;> simp [changeAt]

@[simp] theorem changeAt_eq_deleted : changeAt a b = some .deleted ↔ a.isSome = true ∧ b = none := by
  cases a <;> cases b <;> simp [changeAt]

/-- Values that are told apart as well by `f` change in the same way under it. -/
theorem changeAt_map {W : Type*} [DecidableEq W] {f : V → W} (h : ∀ x ∈ a, ∀ y ∈ b, f x = f y → x = y) :
    changeAt (a.map f) (b.map f) = changeAt a b := by
  cases a with
  | none => cases b <;> rfl
  | some x =>
    cases b with
    | none => rfl
    | some y =>
      have hiff : f x = f y ↔ x = y := ⟨h x rfl y rfl, congrArg f⟩
      simp only [Option.map_some, changeAt, hiff]

end ChangeAt

/-- **A list of changes describes the step from `old` to `new`**: each changed key once, with its change, and no other. -/
structure Describes [DecidableEq V] (old new : K → Option V) (changes : List (K × KeyChange)) : Prop where
  once : (changes.map Prod.fst).Nodup
  change : ∀ k c, (k, c) ∈ changes ↔ changeAt (old k) (new k) = some c

theorem Describes.of_perm [DecidableEq V] {old new : K → Option V} {changes changes' : List (K × KeyChange)}
    (h : Describes old new changes) (hp : changes'.Perm changes) : Describes old new changes' :=
  ⟨(hp.map Prod.fst).nodup_iff.2 h.once, fun k c => hp.mem_iff.trans (h.change k c)⟩

theorem Describes.congr [DecidableEq V] {W : Type*} [DecidableEq W] {old new : K → Option V} {old' new' : K → Option W}
    {changes : List (K × KeyChange)} (h : Describes old new changes)
    (hsame : ∀ k, changeAt (old' k) (new' k) = changeAt (old k) (new k)) : Describes old' new' changes :=
  ⟨h.once, fun k c => by rw [hsame k]; exact h.change k c⟩

variable [DecidableEq K]

/-- One change, replayed on a set of keys. -/
def replay (keys : Finset K) : K × KeyChange → Finset K
  | (k, .created) => insert k keys
  | (k, .deleted) => keys.erase k
  | (_, .modified) => keys

theorem mem_replay {keys : Finset K} {e : K × KeyChange} {k : K} :
    k ∈ replay keys e ↔ e = (k, .created) ∨ (k ∈ keys ∧ e ≠ (k, .deleted)) := by
  obtain ⟨j, c⟩ := e
  cases c with
  | modified => simp [replay]
  | created => simp [replay, Finset.mem_insert, eq_comm]
  | deleted => simp [replay, Finset.mem_erase, eq_comm, and_comm]

/-- **A replayed key** was created, or was there and not deleted, when every key changes at most once. -/
theorem mem_foldl_replay {k : K} : ∀ (changes : List (K × KeyChange)) (keys : Finset K), (changes.map Prod.fst).Nodup →
    (k ∈ changes.foldl replay keys ↔ (k, .created) ∈ changes ∨ (k ∈ keys ∧ (k, .deleted) ∉ changes))
  | [], keys, _ => by simp
  | e :: changes, keys, hn => by
    rw [List.map_cons, List.nodup_cons] at hn
    have hlater : ∀ c c', e = (k, c) → (k, c') ∉ changes := by
      rintro c c' rfl hmem
      exact hn.1 (List.mem_map.2 ⟨(k, c'), hmem, rfl⟩)
    rw [List.foldl_cons, mem_foldl_replay changes (replay keys e) hn.2, mem_replay, List.mem_cons, List.mem_cons,
      not_or, eq_comm (a := e), ne_comm]
    constructor
    · rintro (h | ⟨h | ⟨hk, hne⟩, hnot⟩)
      · exact Or.inl (Or.inr h)
      · exact Or.inl (Or.inl h)
      · exact Or.inr ⟨hk, hne, hnot⟩
    · rintro ((h | h) | ⟨hk, hne, hnot⟩)
      · exact Or.inr ⟨Or.inl h, hlater _ _ h.symm⟩
      · exact Or.inl h
      · exact Or.inr ⟨Or.inr ⟨hk, hne⟩, hnot⟩

/-- **Replaying a description** turns the keys of the one map into those of the other. -/
theorem Describes.foldl_replay [DecidableEq V] {old new : K → Option V} {changes : List (K × KeyChange)}
    (h : Describes old new changes) {keys keys' : Finset K} (hold : ∀ k, k ∈ keys ↔ (old k).isSome = true)
    (hnew : ∀ k, k ∈ keys' ↔ (new k).isSome = true) : changes.foldl replay keys = keys' := by
  ext k
  rw [mem_foldl_replay changes keys h.once, h.change, h.change, hold, hnew, changeAt_eq_created, changeAt_eq_deleted]
  cases ho : old k <;> cases hk : new k <;> simp

/-! ## The last change of each key on record -/

/-- Whether a key is there by its last change on record; of a key with none `base` tells. -/
def PresentBy (base : Prop) : Option KeyChange → Prop
  | none => base
  | some .deleted => False
  | some .created | some .modified => True

/-- **The last item of a key** in a description is its change. -/
theorem Describes.find? [DecidableEq V] {old new : K → Option V} {changes : List (K × KeyChange)}
    (h : Describes old new changes) (k : K) :
    (changes.reverse.find? (fun p => p.1 = k)).map Prod.snd = changeAt (old k) (new k) := by
  cases hfind : changes.reverse.find? (fun p => p.1 = k) with
  | some p =>
    have hk : p.1 = k := by simpa using List.find?_some hfind
    have hmem : p ∈ changes := List.mem_reverse.1 (List.mem_of_find?_eq_some hfind)
    exact ((h.change k p.2).1 (hk ▸ hmem)).symm
  | none =>
    cases hat : changeAt (old k) (new k) with
    | none => rfl
    | some c =>
      have hmem := (h.change k c).2 hat
      have hno := List.find?_eq_none.1 hfind (k, c) (List.mem_reverse.2 hmem)
      simp at hno

/-- **A record kept up to date tells which keys are there**: the change of the step, or the one on record before it. -/
theorem presentBy_or_changeAt [DecidableEq V] {a b : Option V} {base : Prop} {recorded : Option KeyChange}
    (h : a.isSome = true ↔ PresentBy base recorded) :
    b.isSome = true ↔ PresentBy base ((changeAt a b).or recorded) := by
  cases a with
  | none =>
    cases b with
    | none => simpa [changeAt] using h
    | some y => simp [changeAt, PresentBy]
  | some x =>
    cases b with
    | none => simp [changeAt, PresentBy]
    | some y =>
      by_cases hxy : x = y
      · simpa [changeAt, hxy] using h
      · simp [changeAt, hxy, PresentBy]

end Lib
