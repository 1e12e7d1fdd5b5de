import Mathlib.Data.List.Nodup
/-!
# Dict — dictionaries that keep insertion order

A dictionary is its list of items, no key twice.  Assignment replaces the value in place when the key is there and
appends the item otherwise; `pop` forgets a key.  `get?` is what every law is stated on; the items matter for the
counts and the listings.
-/
namespace Lib

universe u v

/-- Items in insertion order, no key twice. -/
structure Dict (K : Type u) (V : Type v) where
  items : List (K × V)
  nodup : (items.map Prod.fst).Nodup
  deriving DecidableEq

namespace Dict

variable {K : Type u} {V : Type v} [DecidableEq K]

def empty : Dict K V := ⟨[], by simp⟩

def get? (d : Dict K V) (k : K) : Option V := (d.items.find? (fun p => p.1 = k)).map Prod.snd

def getD (d : Dict K V) (k : K) (v : V) : V := (d.get? k).getD v

def setItems (k : K) (v : V) : List (K × V) → List (K × V)
  | [] => [(k, v)]
  | p :: ps => if p.1 = k then (k, v) :: ps else p :: setItems k v ps

theorem mem_keys_setItems (k : K) (v : V) (a : K) : ∀ (l : List (K × V)),
    a ∈ (setItems k v l).map Prod.fst ↔ a = k ∨ a ∈ l.map Prod.fst
  | [] => by simp [setItems]
  | p :: ps => by
    unfold setItems
    split
    · rename_i hp
      subst hp
      simp
    · have ih := mem_keys_setItems k v a ps
      simp only [List.map_cons, List.mem_cons, ih]
      tauto

theorem nodup_setItems (k : K) (v : V) : ∀ (l : List (K × V)), (l.map Prod.fst).Nodup →
    ((setItems k v l).map Prod.fst).Nodup
  | [], _ => by simp [setItems]
  | p :: ps, h => by
    rw [List.map_cons, List.nodup_cons] at h
    unfold setItems
    split
    · rename_i hp
      rw [List.map_cons, List.nodup_cons]
      exact ⟨by rw [← hp]; exact h.1, h.2⟩
    · rename_i hp
      rw [List.map_cons, List.nodup_cons, mem_keys_setItems]
      exact ⟨fun hm => hm.elim hp h.1, nodup_setItems k v ps h.2⟩

def set (d : Dict K V) (k : K) (v : V) : Dict K V := ⟨setItems k v d.items, nodup_setItems k v d.items d.nodup⟩

/-- `d.pop(k, None)`, the dictionary part. -/
def pop (d : Dict K V) (k : K) : Dict K V :=
  ⟨d.items.filter (fun p => p.1 ≠ k), (d.nodup).sublist ((List.filter_sublist).map Prod.fst)⟩

def keep (d : Dict K V) (f : K × V → Bool) : Dict K V :=
  ⟨d.items.filter f, (d.nodup).sublist ((List.filter_sublist).map Prod.fst)⟩

def values (d : Dict K V) : List V := d.items.map Prod.snd

def keys (d : Dict K V) : List K := d.items.map Prod.fst

def mapValues {W : Type*} (d : Dict K V) (f : V → W) : Dict K W :=
  ⟨d.items.map (fun p => (p.1, f p.2)), by
    rw [List.map_map]
    exact d.nodup⟩

@[simp] theorem get?_empty (k : K) : (empty : Dict K V).get? k = none := rfl

theorem find?_setItems_self (k : K) (v : V) : ∀ (l : List (K × V)),
    (setItems k v l).find? (fun p => p.1 = k) = some (k, v)
  | [] => by simp [setItems]
  | p :: ps => by
    unfold setItems
    split
    · simp
    · rename_i hp
      simp [hp, find?_setItems_self k v ps]

theorem find?_setItems_ne {k a : K} (v : V) (h : a ≠ k) : ∀ (l : List (K × V)),
    (setItems k v l).find? (fun p => p.1 = a) = l.find? (fun p => p.1 = a)
  | [] => by simp [setItems, Ne.symm h]
  | p :: ps => by
    unfold setItems
    split
    · rename_i hp
      subst hp
      simp [Ne.symm h]
    · simp [List.find?_cons, find?_setItems_ne v h ps]

@[simp] theorem get?_set_self (d : Dict K V) (k : K) (v : V) : (d.set k v).get? k = some v := by
  simp [get?, set, find?_setItems_self]

theorem get?_set_ne (d : Dict K V) {k a : K} (v : V) (h : a ≠ k) : (d.set k v).get? a = d.get? a := by
  simp [get?, set, find?_setItems_ne v h]

theorem get?_set (d : Dict K V) (k a : K) (v : V) : (d.set k v).get? a = if a = k then some v else d.get? a := by
  by_cases h : a = k
  · subst h; simp
  · rw [if_neg h, get?_set_ne d v h]

theorem setItems_setItems (k : K) (u v : V) : ∀ (l : List (K × V)), setItems k v (setItems k u l) = setItems k v l
  | [] => by simp [setItems]
  | p :: ps => by
    by_cases hp : p.1 = k
    · simp [setItems, hp]
    · simp [setItems, hp, setItems_setItems k u v ps]

theorem set_set (d : Dict K V) (k : K) (u v : V) : (d.set k u).set k v = d.set k v := by
  simp only [set, setItems_setItems]

theorem get?_keep (d : Dict K V) (f : K × V → Bool) (k : K) :
    (d.keep f).get? k = (d.get? k).filter (fun v => f (k, v)) := by
  obtain ⟨l, hl⟩ := d
  simp only [get?, keep]
  induction l with
  | nil => rfl
  | cons p ps ih =>
    obtain ⟨a, b⟩ := p
    rw [List.map_cons, List.nodup_cons] at hl
    by_cases hk : a = k
    · -- the key sits at the head: no later item carries it
      have hps : (ps.filter f).find? (fun q => q.1 = k) = none := List.find?_eq_none.2 (fun q hq => by
        have hq' := (List.mem_filter.1 hq).1
        simp only [decide_eq_true_eq]
        intro hqk
        exact hl.1 (List.mem_map.2 ⟨q, hq', by rw [hqk, ← hk]⟩))
      subst hk
      by_cases hf : f (a, b) = true
      · simp [hf, Option.filter]
      · simp [hf, hps, Option.filter]
    · by_cases hf : f (a, b) = true
      · simp only [List.filter_cons, hf, if_true, List.find?_cons, hk, decide_false]
        exact ih hl.2
      · simp only [List.filter_cons, hf, List.find?_cons, hk, decide_false]
        exact ih hl.2

omit [DecidableEq K] in
@[simp] theorem keep_true (d : Dict K V) : d.keep (fun _ => true) = d := by
  simp [keep]

omit [DecidableEq K] in
theorem keep_keep (d : Dict K V) (f g : K × V → Bool) : (d.keep f).keep g = d.keep (fun p => f p && g p) := by
  simp [keep, List.filter_filter, Bool.and_comm]

omit [DecidableEq K] in
theorem keep_congr (d : Dict K V) {f g : K × V → Bool} (h : ∀ p ∈ d.items, f p = g p) : d.keep f = d.keep g := by
  simp only [keep, List.filter_congr h]

omit [DecidableEq K] in
theorem mem_keys_keep {d : Dict K V} (f : K → Bool) {k : K} :
    k ∈ (d.keep (fun p => f p.1)).keys ↔ k ∈ d.keys ∧ f k = true := by
  simp only [keys, keep, List.mem_map, List.mem_filter]
  constructor
  · rintro ⟨p, ⟨hp, hf⟩, rfl⟩
    exact ⟨⟨p, hp, rfl⟩, hf⟩
  · rintro ⟨⟨p, hp, rfl⟩, hf⟩
    exact ⟨p, ⟨hp, hf⟩, rfl⟩

theorem pop_eq_keep (d : Dict K V) (k : K) : d.pop k = d.keep (fun p => p.1 ≠ k) := rfl

@[simp] theorem get?_pop_self (d : Dict K V) (k : K) : (d.pop k).get? k = none := by
  rw [pop_eq_keep, get?_keep]
  cases d.get? k <;> simp

theorem get?_pop_ne (d : Dict K V) {k a : K} (h : a ≠ k) : (d.pop k).get? a = d.get? a := by
  rw [pop_eq_keep, get?_keep]
  cases d.get? a <;> simp [h]

theorem get?_pop (d : Dict K V) (k a : K) : (d.pop k).get? a = if a = k then none else d.get? a := by
  by_cases h : a = k
  · subst h; simp
  · rw [if_neg h, get?_pop_ne d h]

theorem get?_eq_some_iff (d : Dict K V) (k : K) (v : V) : d.get? k = some v ↔ (k, v) ∈ d.items := by
  obtain ⟨l, hl⟩ := d
  simp only [get?]
  induction l with
  | nil => simp
  | cons p ps ih =>
    rw [List.map_cons, List.nodup_cons] at hl
    by_cases hk : p.1 = k
    · subst hk
      have hno : ∀ w, (p.1, w) ∉ ps := fun w hw => hl.1 (List.mem_map.2 ⟨_, hw, rfl⟩)
      obtain ⟨a, b⟩ := p
      simp only [List.find?_cons, decide_true, Option.map_some, Option.some.injEq, List.mem_cons, Prod.mk.injEq,
        true_and, hno v, or_false]
      exact eq_comm
    · have hne : ¬ (k, v) = p := fun he => hk (by rw [← he])
      simp only [List.find?_cons, hk, decide_false, List.mem_cons, hne, false_or]
      exact ih hl.2

theorem setItems_of_find? (k : K) (v : V) : ∀ (l : List (K × V)),
    l.find? (fun p => p.1 = k) = some (k, v) → setItems k v l = l
  | [], h => by cases h
  | p :: ps, h => by
    unfold setItems
    by_cases hp : p.1 = k
    · simp only [List.find?_cons, hp, decide_true, Option.some.injEq] at h
      rw [if_pos hp, h]
    · simp only [List.find?_cons, hp, decide_false] at h
      rw [if_neg hp, setItems_of_find? k v ps h]

theorem get?_mapValues {W : Type*} (d : Dict K V) (f : V → W) (k : K) :
    (d.mapValues f).get? k = (d.get? k).map f := by
  simp only [get?, mapValues, List.find?_map, Option.map_map]
  rfl

theorem mapValues_set {W : Type*} (d : Dict K V) (f : V → W) (k : K) (v : V) :
    (d.set k v).mapValues f = (d.mapValues f).set k (f v) := by
  have hitems : ∀ l : List (K × V), (setItems k v l).map (fun p => (p.1, f p.2)) =
      setItems k (f v) (l.map (fun p => (p.1, f p.2))) := by
    intro l
    induction l with
    | nil => rfl
    | cons p ps ih =>
      by_cases hp : p.1 = k
      · simp [setItems, hp]
      · simp [setItems, hp, ih]
  simp only [set, mapValues, hitems]

theorem set_of_get? (d : Dict K V) {k : K} {v : V} (h : d.get? k = some v) : d.set k v = d := by
  obtain ⟨l, hl⟩ := d
  have hfind : l.find? (fun p => p.1 = k) = some (k, v) := by
    obtain ⟨p, hp, hv⟩ := Option.map_eq_some_iff.1 h
    have hk : p.1 = k := by simpa using List.find?_some hp
    rw [hp, ← hk, ← hv]
  simp only [set, setItems_of_find? k v l hfind]

theorem pop_of_get? (d : Dict K V) {k : K} (h : d.get? k = none) : d.pop k = d := by
  obtain ⟨l, hl⟩ := d
  have hno : ∀ p ∈ l, decide (p.1 ≠ k) = true := by
    intro p hp
    have := List.find?_eq_none.1 (Option.map_eq_none_iff.1 h) p hp
    simpa using this
  simp only [pop, List.filter_eq_self.2 hno]

/-- `dict(items)`: a later item replaces an earlier one of its key. -/
def ofList : List (K × V) → Dict K V := List.foldl (fun d p => d.set p.1 p.2) empty

theorem get?_foldl_set (k : K) : ∀ (l : List (K × V)) (d : Dict K V),
    (l.foldl (fun d p => d.set p.1 p.2) d).get? k = ((l.reverse.find? (fun p => p.1 = k)).map Prod.snd).or (d.get? k)
  | [], d => by simp
  | p :: ps, d => by
    rw [List.foldl_cons, get?_foldl_set k ps, List.reverse_cons, List.find?_append]
    cases h : ps.reverse.find? (fun p => p.1 = k) with
    | some q => simp
    | none =>
      rw [get?_set]
      by_cases hp : p.1 = k
      · simp [hp]
      · simp [hp, Ne.symm hp]

/-- **The last item of a key** is the one kept. -/
theorem get?_ofList (l : List (K × V)) (k : K) :
    (ofList l).get? k = (l.reverse.find? (fun p => p.1 = k)).map Prod.snd := by
  rw [ofList, get?_foldl_set, get?_empty, Option.or_none]

theorem mem_of_get?_ofList {l : List (K × V)} {k : K} {v : V} (h : (ofList l).get? k = some v) : (k, v) ∈ l := by
  rw [get?_ofList] at h
  obtain ⟨p, hp, hv⟩ := Option.map_eq_some_iff.1 h
  have hk : p.1 = k := by simpa using List.find?_some hp
  have hmem := List.mem_reverse.1 (List.mem_of_find?_eq_some hp)
  rw [← hk, ← hv]
  exact hmem

theorem get?_ofList_of_nodup {l : List (K × V)} (hn : (l.map Prod.fst).Nodup) {k : K} {v : V} (h : (k, v) ∈ l) :
    (ofList l).get? k = some v := by
  cases hg : (ofList l).get? k with
  | none =>
    rw [get?_ofList, Option.map_eq_none_iff] at hg
    have := List.find?_eq_none.1 hg (k, v) (List.mem_reverse.2 h)
    simp at this
  | some w =>
    have hw := mem_of_get?_ofList hg
    have := List.inj_on_of_nodup_map hn h hw rfl
    rw [(Prod.mk.inj this).2]

theorem setItems_of_notMem (k : K) (v : V) : ∀ {l : List (K × V)}, k ∉ l.map Prod.fst → setItems k v l = l ++ [(k, v)]
  | [], _ => rfl
  | p :: ps, h => by
    rw [List.map_cons, List.mem_cons, not_or] at h
    rw [setItems, if_neg (Ne.symm h.1), setItems_of_notMem k v h.2, List.cons_append]

theorem items_foldl_set : ∀ (l : List (K × V)) (d : Dict K V), ((d.items ++ l).map Prod.fst).Nodup →
    (l.foldl (fun d p => d.set p.1 p.2) d).items = d.items ++ l
  | [], d, _ => (List.append_nil _).symm
  | p :: ps, d, h => by
    have hnot : p.1 ∉ d.items.map Prod.fst := by
      rw [List.map_append, List.map_cons] at h
      intro hmem
      exact List.disjoint_of_nodup_append h hmem List.mem_cons_self
    have hitems : (d.set p.1 p.2).items = d.items ++ [p] := setItems_of_notMem p.1 p.2 hnot
    have hnodup : (((d.set p.1 p.2).items ++ ps).map Prod.fst).Nodup := by
      rw [hitems, List.append_assoc]
      exact h
    rw [List.foldl_cons, items_foldl_set ps _ hnodup, hitems, List.append_assoc]
    rfl

/-- A dictionary is built again from its items. -/
theorem ofList_items (d : Dict K V) : ofList d.items = d := by
  have hitems := items_foldl_set d.items empty d.nodup
  obtain ⟨l, hl⟩ := d
  rw [ofList, mk.injEq]
  exact hitems

theorem mem_keys_iff (d : Dict K V) (k : K) : k ∈ d.keys ↔ ∃ v, d.get? k = some v := by
  constructor
  · intro h
    obtain ⟨p, hp, rfl⟩ := List.mem_map.1 h
    exact ⟨p.2, (d.get?_eq_some_iff _ _).2 hp⟩
  · rintro ⟨v, hv⟩
    exact List.mem_map.2 ⟨(k, v), (d.get?_eq_some_iff _ _).1 hv, rfl⟩

theorem mem_values_iff (d : Dict K V) (v : V) : v ∈ d.values ↔ ∃ k, d.get? k = some v := by
  constructor
  · intro h
    obtain ⟨p, hp, rfl⟩ := List.mem_map.1 h
    exact ⟨p.1, (d.get?_eq_some_iff _ _).2 hp⟩
  · rintro ⟨k, hk⟩
    exact List.mem_map.2 ⟨(k, v), (d.get?_eq_some_iff _ _).1 hk, rfl⟩

end Dict
end Lib
