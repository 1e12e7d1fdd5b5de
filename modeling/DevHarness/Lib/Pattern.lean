import Mathlib.Algebra.GroupWithZero.Nat
import Mathlib.Data.List.Basic
import Mathlib.Data.List.TakeWhile
import Mathlib.Data.List.Forall2
import Mathlib.Data.List.Infix
/-!
# Pattern — patterns taken greedily from the left, and the substitution of their matches

A pattern is a list of pieces: one character of each of some classes, or a run of at least so many of one class.  Runs
are taken whole.  Where what follows a run begins outside its class (`Settled`) no shorter run could match, so a text
begins with a match exactly when it begins with a word of the pattern (`take_isSome_iff`).  The substitution goes over
the text once; the rules at the end say when it changes nothing, that a short replacement shortens, and at which cuts it
can be done on either side.
-/
namespace Lib
namespace Pattern

universe u

variable {α : Type u}

inductive Piece (α : Type u) where
  | each (classes : List (α → Bool))
  | run (least : ℕ) (cls : α → Bool)

/-- The words of a piece. -/
def Piece.Accepts : Piece α → List α → Prop
  | .each classes, w => List.Forall₂ (fun p a => p a = true) classes w
  | .run least cls, w => least ≤ w.length ∧ ∀ a ∈ w, cls a = true

/-- Exactly this text. -/
def Piece.literal [DecidableEq α] (w : List α) : Piece α := .each (w.map (fun a b => decide (b = a)))

theorem Piece.accepts_literal_iff [DecidableEq α] {w v : List α} : (Piece.literal w).Accepts v ↔ v = w := by
  rw [literal, Accepts, List.forall₂_map_left_iff]
  simp only [decide_eq_true_eq]
  constructor
  · intro h
    induction h with
    | nil => rfl
    | cons hab _ ih => rw [hab, ih]
  · rintro rfl
    exact List.forall₂_same.2 (fun _ _ => rfl)

def takeEach : List (α → Bool) → List α → Option (List α × List α)
  | [], text => some ([], text)
  | _ :: _, [] => none
  | p :: ps, a :: text => if p a then (takeEach ps text).map (fun r => (a :: r.1, r.2)) else none

def Piece.take : Piece α → List α → Option (List α × List α)
  | .each classes, text => takeEach classes text
  | .run least cls, text =>
    if least ≤ (text.takeWhile cls).length then some (text.takeWhile cls, text.dropWhile cls) else none

/-- The match at the head of a text, piece by piece, and what is left. -/
def take : List (Piece α) → List α → Option (List (List α) × List α)
  | [], text => some ([], text)
  | p :: ps, text => match p.take text with
    | none => none
    | some (w, rest) => (take ps rest).map (fun r => (w :: r.1, r.2))

/-- A word of a pattern, piece by piece. -/
def Words (ps : List (Piece α)) (parts : List (List α)) : Prop := List.Forall₂ Piece.Accepts ps parts

def fullMatch (ps : List (Piece α)) (text : List α) : Option (List (List α)) :=
  match take ps text with
  | some (parts, []) => some parts
  | _ => none

/-- Every word of the piece begins with a character outside the class. -/
def Piece.Avoids (cls : α → Bool) : Piece α → Prop
  | .each [] => False
  | .each (p :: _) => ∀ a, cls a = true → p a = false
  | .run least p => 0 < least ∧ ∀ a, cls a = true → p a = false

/-- **What follows a run begins outside its class.** -/
def Settled : List (Piece α) → Prop
  | .run _ cls :: q :: ps => q.Avoids cls ∧ Settled (q :: ps)
  | .each _ :: q :: ps => Settled (q :: ps)
  | _ => True

/-! ## What is taken -/

theorem takeEach_append : ∀ {classes : List (α → Bool)} {w : List α} (rest : List α),
    List.Forall₂ (fun p a => p a = true) classes w → takeEach classes (w ++ rest) = some (w, rest)
  | [], _, rest, h => by
    cases h
    rfl
  | p :: ps, _, rest, h => by
    cases h with
    | cons hp hps => rw [List.cons_append, takeEach, if_pos hp, takeEach_append rest hps, Option.map_some]

theorem takeEach_sound : ∀ {classes : List (α → Bool)} {text w rest : List α}, takeEach classes text = some (w, rest) →
    text = w ++ rest ∧ List.Forall₂ (fun p a => p a = true) classes w
  | [], text, w, rest, h => by
    cases h
    exact ⟨rfl, List.Forall₂.nil⟩
  | p :: ps, [], w, rest, h => by cases h
  | p :: ps, a :: text, w, rest, h => by
    rw [takeEach] at h
    split at h
    · rename_i hp
      obtain ⟨⟨v, r⟩, hv, he⟩ := Option.map_eq_some_iff.1 h
      obtain ⟨rfl, rfl⟩ := Prod.mk.inj he
      obtain ⟨rfl, hps⟩ := takeEach_sound hv
      exact ⟨rfl, List.Forall₂.cons hp hps⟩
    · cases h

theorem Piece.take_sound {p : Piece α} {text w rest : List α} (h : p.take text = some (w, rest)) :
    text = w ++ rest ∧ p.Accepts w := by
  cases p with
  | each classes => exact takeEach_sound h
  | run least cls =>
    rw [Piece.take] at h
    split at h
    · rename_i hle
      cases h
      exact ⟨(List.takeWhile_append_dropWhile).symm, hle, fun a ha => List.mem_takeWhile_imp ha⟩
    · cases h

/-- **What is taken is a word of the pattern at the head of the text.** -/
theorem take_sound : ∀ {ps : List (Piece α)} {text rest : List α} {parts : List (List α)},
    take ps text = some (parts, rest) → text = parts.flatten ++ rest ∧ Words ps parts
  | [], text, rest, parts, h => by
    cases h
    exact ⟨rfl, List.Forall₂.nil⟩
  | p :: ps, text, rest, parts, h => by
    rw [take] at h
    cases hp : p.take text with
    | none => rw [hp] at h; cases h
    | some r =>
      obtain ⟨w, more⟩ := r
      rw [hp] at h
      obtain ⟨⟨vs, r⟩, hv, he⟩ := Option.map_eq_some_iff.1 h
      obtain ⟨rfl, rfl⟩ := Prod.mk.inj he
      obtain ⟨rfl, hw⟩ := Piece.take_sound hp
      obtain ⟨rfl, hvs⟩ := take_sound hv
      exact ⟨by rw [List.flatten_cons, List.append_assoc], List.Forall₂.cons hw hvs⟩

theorem takeWhile_append_of_all {cls : α → Bool} : ∀ {w : List α}, (∀ a ∈ w, cls a = true) → ∀ rest,
    (w ++ rest).takeWhile cls = w ++ rest.takeWhile cls ∧ (w ++ rest).dropWhile cls = rest.dropWhile cls
  | [], _, rest => ⟨rfl, rfl⟩
  | a :: w, h, rest => by
    rw [List.forall_mem_cons] at h
    obtain ⟨ht, hd⟩ := takeWhile_append_of_all h.2 rest
    rw [List.cons_append, List.takeWhile_cons_of_pos h.1, List.dropWhile_cons_of_pos h.1, ht, hd]
    exact ⟨rfl, rfl⟩

/-- A word of a piece that follows a run ends the run. -/
theorem Piece.Avoids.stops {cls : α → Bool} {q : Piece α} (h : q.Avoids cls) {w : List α} (hw : q.Accepts w)
    (rest : List α) : (w ++ rest).takeWhile cls = [] ∧ (w ++ rest).dropWhile cls = w ++ rest := by
  have hhead : ∃ a v, w = a :: v ∧ cls a ≠ true := by
    cases q with
    | each classes =>
      cases classes with
      | nil => cases h
      | cons p ps =>
        cases hw with
        | cons hp _ =>
          refine ⟨_, _, rfl, fun hc => ?_⟩
          rw [h _ hc] at hp
          cases hp
    | run least p =>
      obtain ⟨hpos, hp⟩ := h
      obtain ⟨hle, hall⟩ := hw
      cases w with
      | nil => exact absurd (Nat.lt_of_lt_of_le hpos hle) (Nat.lt_irrefl _)
      | cons a v =>
        refine ⟨a, v, rfl, fun hc => ?_⟩
        have ha := hall a List.mem_cons_self
        rw [hp a hc] at ha
        cases ha
  obtain ⟨a, v, rfl, ha⟩ := hhead
  rw [List.cons_append, List.takeWhile_cons_of_neg ha, List.dropWhile_cons_of_neg ha]
  exact ⟨rfl, rfl⟩

theorem Settled.tail {p : Piece α} {ps : List (Piece α)} (hs : Settled (p :: ps)) : Settled ps := by
  cases ps with
  | nil => trivial
  | cons q ps =>
    cases p with
    | each classes => exact hs
    | run least cls => exact hs.2

/-- **A settled pattern takes the word a text begins with**, and all of it where nothing follows. -/
theorem take_of_words : ∀ {ps : List (Piece α)} {parts : List (List α)}, Settled ps → Words ps parts →
    ∀ rest, ∃ parts' rest', take ps (parts.flatten ++ rest) = some (parts', rest') ∧
      (rest = [] → parts' = parts ∧ rest' = [])
  | [], _, _, hw, rest => by
    cases hw
    exact ⟨[], rest, rfl, fun h => ⟨rfl, h⟩⟩
  | p :: ps, _, hs, hw, rest => by
    cases hw with
    | @cons _ w _ parts hp hps =>
      obtain ⟨parts', rest', htake, hall⟩ := take_of_words hs.tail hps rest
      rw [List.flatten_cons, List.append_assoc]
      cases p with
      | each classes =>
        refine ⟨w :: parts', rest', ?_, fun h => ?_⟩
        · rw [take, Piece.take, takeEach_append _ hp]
          dsimp only
          rw [htake, Option.map_some]
        · obtain ⟨rfl, rfl⟩ := hall h
          exact ⟨rfl, rfl⟩
      | run least cls =>
        obtain ⟨hle, hcls⟩ := hp
        obtain ⟨hrun, hdrop⟩ := takeWhile_append_of_all hcls (parts.flatten ++ rest)
        cases hps with
        | nil =>
          -- the last run takes what else there is of its class
          refine ⟨[w ++ rest.takeWhile cls], rest.dropWhile cls, ?_, fun h => ?_⟩
          · rw [take, Piece.take, hrun, hdrop, List.flatten_nil, List.nil_append, if_pos]
            · rfl
            · rw [List.length_append]
              omega
          · subst h
            rw [List.takeWhile_nil, List.dropWhile_nil, List.append_nil]
            exact ⟨rfl, rfl⟩
        | @cons q v ps parts hq hps =>
          obtain ⟨hstop, hkeep⟩ := hs.1.stops hq (parts.flatten ++ rest)
          rw [List.flatten_cons, List.append_assoc, hstop, List.append_nil] at hrun
          rw [List.flatten_cons, List.append_assoc, hkeep] at hdrop
          rw [List.flatten_cons, List.append_assoc] at htake ⊢
          refine ⟨w :: parts', rest', ?_, fun h => ?_⟩
          · rw [take, Piece.take, hrun, hdrop, if_pos hle]
            dsimp only
            rw [htake, Option.map_some]
          · obtain ⟨rfl, rfl⟩ := hall h
            exact ⟨rfl, rfl⟩

theorem take_isSome_iff {ps : List (Piece α)} (hs : Settled ps) (text : List α) :
    (take ps text).isSome = true ↔ ∃ parts rest, text = parts.flatten ++ rest ∧ Words ps parts := by
  constructor
  · intro h
    obtain ⟨⟨parts, rest⟩, htake⟩ := Option.isSome_iff_exists.1 h
    exact ⟨parts, rest, take_sound htake⟩
  · rintro ⟨parts, rest, rfl, hw⟩
    obtain ⟨parts', rest', htake, -⟩ := take_of_words hs hw rest
    rw [htake]
    rfl

/-- **A text matches in full exactly when it is a word of the pattern.** -/
theorem fullMatch_eq_some_iff {ps : List (Piece α)} (hs : Settled ps) {text : List α} {parts : List (List α)} :
    fullMatch ps text = some parts ↔ text = parts.flatten ∧ Words ps parts := by
  unfold fullMatch
  constructor
  · intro h
    split at h
    · rename_i parts' htake
      cases h
      obtain ⟨rfl, hw⟩ := take_sound htake
      exact ⟨List.append_nil _, hw⟩
    · cases h
  · rintro ⟨rfl, hw⟩
    obtain ⟨parts', rest', htake, hall⟩ := take_of_words hs hw []
    obtain ⟨rfl, rfl⟩ := hall rfl
    rw [List.append_nil] at htake
    rw [htake]

/-! ## Substitution -/

/-- How long the match at the head of a text is. -/
def matchLength (ps : List (Piece α)) (text : List α) : Option ℕ := (take ps text).map (fun r => r.1.flatten.length)

/-- Every match from the left replaced; `n` characters of the last one are still to be passed over.  An empty match
counts as none. -/
def sub (ps : List (Piece α)) (replacement : List α) : ℕ → List α → List α
  | _, [] => []
  | n + 1, _ :: text => sub ps replacement n text
  | 0, a :: text => match matchLength ps (a :: text) with
    | some (n + 1) => replacement ++ sub ps replacement n text
    | _ => a :: sub ps replacement 0 text

/-- The pattern matches somewhere in the text. -/
def Occurs (ps : List (Piece α)) (text : List α) : Prop := ∃ tail, tail <:+ text ∧ (take ps tail).isSome = true

theorem occurs_iff_tails {ps : List (Piece α)} {text : List α} :
    (∃ tail ∈ text.tails, (take ps tail).isSome = true) ↔ Occurs ps text := by
  simp only [List.mem_tails, Occurs]

instance (ps : List (Piece α)) (text : List α) : Decidable (Occurs ps text) := decidable_of_iff _ occurs_iff_tails

def Piece.least : Piece α → ℕ
  | .each classes => classes.length
  | .run least _ => least

/-- The least length of a word. -/
def least (ps : List (Piece α)) : ℕ := (ps.map Piece.least).sum

theorem Piece.least_le {p : Piece α} {w : List α} (h : p.Accepts w) : p.least ≤ w.length := by
  cases p with
  | each classes => exact Nat.le_of_eq h.length_eq
  | run n cls => exact h.1

theorem least_le : ∀ {ps : List (Piece α)} {parts : List (List α)}, Words ps parts → least ps ≤ parts.flatten.length
  | [], _, _ => Nat.zero_le _
  | p :: ps, _, h => by
    cases h with
    | cons hp hps =>
      have hle := least_le hps
      have hw := Piece.least_le hp
      rw [least] at hle ⊢
      rw [List.map_cons, List.sum_cons, List.flatten_cons, List.length_append]
      omega

theorem matchLength_eq_some {ps : List (Piece α)} {text : List α} {n : ℕ} (h : matchLength ps text = some n) :
    least ps ≤ n ∧ n ≤ text.length := by
  obtain ⟨⟨parts, rest⟩, htake, rfl⟩ := Option.map_eq_some_iff.1 h
  obtain ⟨rfl, hw⟩ := take_sound htake
  refine ⟨least_le hw, ?_⟩
  rw [List.length_append]
  exact Nat.le_add_right _ _

theorem matchLength_isSome (ps : List (Piece α)) (text : List α) :
    (matchLength ps text).isSome = (take ps text).isSome := Option.isSome_map

theorem Occurs.least_le {ps : List (Piece α)} {text : List α} (h : Occurs ps text) : least ps ≤ text.length := by
  obtain ⟨tail, hsuffix, hm⟩ := h
  rw [← matchLength_isSome] at hm
  obtain ⟨n, hn⟩ := Option.isSome_iff_exists.1 hm
  obtain ⟨hleast, hlen⟩ := matchLength_eq_some hn
  exact Nat.le_trans hleast (Nat.le_trans hlen hsuffix.length_le)

theorem Occurs.of_infix {ps : List (Piece α)} (hs : Settled ps) {a b : List α} (h : Occurs ps a) (hab : a <:+: b) :
    Occurs ps b := by
  obtain ⟨tail, htail, hmatch⟩ := h
  obtain ⟨parts, rest, rfl, hw⟩ := (take_isSome_iff hs _).1 hmatch
  obtain ⟨before, after, rfl⟩ := hab
  obtain ⟨skipped, rfl⟩ := htail
  refine ⟨parts.flatten ++ rest ++ after, ?_, ?_⟩
  · exact ⟨before ++ skipped, by simp only [List.append_assoc]⟩
  · exact (take_isSome_iff hs _).2 ⟨parts, rest ++ after, by rw [List.append_assoc], hw⟩

/-- **Where nothing matches nothing changes.** -/
theorem sub_eq_self {ps : List (Piece α)} (replacement : List α) : ∀ {text : List α}, ¬ Occurs ps text →
    sub ps replacement 0 text = text
  | [], _ => rfl
  | a :: text, h => by
    have hhead : matchLength ps (a :: text) = none := by
      rw [← Option.not_isSome_iff_eq_none, matchLength_isSome]
      exact fun hm => h ⟨a :: text, List.suffix_refl _, hm⟩
    have htail : ¬ Occurs ps text := by
      rintro ⟨tail, hsuffix, hm⟩
      exact h ⟨tail, hsuffix.trans (List.suffix_cons a text), hm⟩
    rw [sub, hhead]
    dsimp only
    rw [sub_eq_self replacement htail]

/-- A replacement no longer than a match does not lengthen. -/
theorem length_sub_le {ps : List (Piece α)} {replacement : List α} (hr : replacement.length ≤ least ps) :
    ∀ (text : List α) (n : ℕ), n ≤ text.length → (sub ps replacement n text).length + n ≤ text.length
  | [], n, h => by
    rw [sub]
    exact (Nat.zero_add n).symm ▸ h
  | a :: text, n + 1, h => by
    rw [List.length_cons] at h ⊢
    have ih := length_sub_le hr text n (by omega)
    rw [sub]
    omega
  | a :: text, 0, _ => by
    have ih := length_sub_le hr text
    rw [sub, List.length_cons]
    split
    · rename_i n hm
      obtain ⟨hleast, hlen⟩ := matchLength_eq_some hm
      rw [List.length_cons] at hlen
      have hn := ih n (by omega)
      rw [List.length_append]
      omega
    · have h0 := ih 0 (Nat.zero_le _)
      rw [List.length_cons]
      omega

/-- **A replacement shorter than every match shortens a text with a match.** -/
theorem length_sub_lt {ps : List (Piece α)} {replacement : List α} (hr : replacement.length < least ps) :
    ∀ {text : List α}, Occurs ps text → (sub ps replacement 0 text).length < text.length
  | [], h => by
    have hle := h.least_le
    rw [List.length_nil] at hle
    omega
  | a :: text, h => by
    rw [sub, List.length_cons]
    split
    · rename_i n hm
      obtain ⟨hleast, hlen⟩ := matchLength_eq_some hm
      rw [List.length_cons] at hlen
      have hle := length_sub_le (Nat.le_of_lt hr) text n (by omega)
      rw [List.length_append]
      omega
    · rename_i hno
      obtain ⟨tail, hsuffix, hm⟩ := h
      rcases List.suffix_cons_iff.1 hsuffix with rfl | hsuffix
      · -- a match at the head would have been replaced
        rw [← matchLength_isSome] at hm
        obtain ⟨n, hn⟩ := Option.isSome_iff_exists.1 hm
        obtain ⟨hleast, -⟩ := matchLength_eq_some hn
        cases n with
        | zero => omega
        | succ n => exact absurd hn (hno n)
      · have ih := length_sub_lt hr ⟨tail, hsuffix, hm⟩
        rw [List.length_cons]
        omega

/-! ## Cuts -/

/-- **The substitution of `a ++ b` comes to the cut with nothing to pass over**: no match lies across it. -/
def Uncut (ps : List (Piece α)) : ℕ → List α → List α → Prop
  | n, [], _ => n = 0
  | n + 1, _ :: a, b => Uncut ps n a b
  | 0, x :: a, b => match matchLength ps (x :: a ++ b) with
    | some (n + 1) => Uncut ps n a b
    | _ => Uncut ps 0 a b

def UncutAll (ps : List (Piece α)) : List (List α) → Prop
  | [] => True
  | t :: ts => Uncut ps 0 t ts.flatten ∧ UncutAll ps ts

instance Uncut.decidable (ps : List (Piece α)) : ∀ (n : ℕ) (a b : List α), Decidable (Uncut ps n a b)
  | n, [], _ => inferInstanceAs (Decidable (n = 0))
  | n + 1, _ :: a, b => Uncut.decidable ps n a b
  | 0, x :: a, b => by
    unfold Uncut
    exact match matchLength ps (x :: a ++ b) with
      | some (n + 1) => Uncut.decidable ps n a b
      | some 0 => Uncut.decidable ps 0 a b
      | none => Uncut.decidable ps 0 a b

instance UncutAll.decidable (ps : List (Piece α)) : ∀ ts, Decidable (UncutAll ps ts)
  | [] => isTrue trivial
  | _ :: ts => @instDecidableAnd _ _ _ (UncutAll.decidable ps ts)

theorem Uncut.le {ps : List (Piece α)} : ∀ {a b : List α} {n : ℕ}, Uncut ps n a b → n ≤ a.length
  | [], _, n, h => by
    rw [Uncut] at h
    exact Nat.le_of_eq h
  | _ :: a, b, 0, _ => Nat.zero_le _
  | _ :: a, b, n + 1, h => Nat.succ_le_succ (Uncut.le (a := a) (b := b) h)

theorem takeEach_of_append : ∀ {classes : List (α → Bool)} {a b v rest : List α},
    takeEach classes (a ++ b) = some (v, rest) → v.length ≤ a.length →
      ∃ rest', rest = rest' ++ b ∧ takeEach classes a = some (v, rest')
  | [], a, b, v, rest, h, _ => by
    cases h
    exact ⟨a, rfl, rfl⟩
  | p :: ps, [], b, v, rest, h, hle => by
    obtain ⟨-, hw⟩ := takeEach_sound h
    cases hw
    cases hle
  | p :: ps, x :: a, b, v, rest, h, hle => by
    rw [List.cons_append, takeEach] at h
    split at h
    · rename_i hp
      obtain ⟨⟨w, r⟩, hw, he⟩ := Option.map_eq_some_iff.1 h
      obtain ⟨rfl, rfl⟩ := Prod.mk.inj he
      obtain ⟨rest', hr, ht⟩ := takeEach_of_append hw (Nat.le_of_succ_le_succ hle)
      exact ⟨rest', hr, by rw [takeEach, if_pos hp, ht, Option.map_some]⟩
    · cases h

theorem takeWhile_of_append {cls : α → Bool} : ∀ {a b : List α}, ((a ++ b).takeWhile cls).length ≤ a.length →
    (a ++ b).takeWhile cls = a.takeWhile cls ∧ (a ++ b).dropWhile cls = a.dropWhile cls ++ b
  | [], b, h => by
    have hnil := List.length_eq_zero_iff.1 (Nat.le_zero.1 h)
    have hb := List.takeWhile_append_dropWhile (p := cls) (l := b)
    rw [List.nil_append] at hnil ⊢
    rw [hnil, List.nil_append] at hb
    rw [hnil, hb]
    exact ⟨rfl, rfl⟩
  | x :: a, b, h => by
    rw [List.cons_append] at h ⊢
    by_cases hx : cls x = true
    · rw [List.takeWhile_cons_of_pos hx] at h
      obtain ⟨ht, hd⟩ := takeWhile_of_append (Nat.le_of_succ_le_succ h)
      rw [List.takeWhile_cons_of_pos hx, List.dropWhile_cons_of_pos hx, List.takeWhile_cons_of_pos hx,
        List.dropWhile_cons_of_pos hx, ht, hd]
      exact ⟨rfl, rfl⟩
    · rw [List.takeWhile_cons_of_neg hx, List.dropWhile_cons_of_neg hx, List.takeWhile_cons_of_neg hx,
        List.dropWhile_cons_of_neg hx]
      exact ⟨rfl, rfl⟩

theorem Piece.take_of_append {p : Piece α} {a b v rest : List α} (h : p.take (a ++ b) = some (v, rest))
    (hle : v.length ≤ a.length) : ∃ rest', rest = rest' ++ b ∧ p.take a = some (v, rest') := by
  cases p with
  | each classes => exact takeEach_of_append h hle
  | run least cls =>
    rw [Piece.take] at h
    split at h
    · rename_i hleast
      cases h
      obtain ⟨ht, hd⟩ := takeWhile_of_append hle
      rw [ht] at hleast ⊢
      exact ⟨a.dropWhile cls, hd, by rw [Piece.take, if_pos hleast]⟩
    · cases h

/-- A match that ends before the cut is there without what follows the cut. -/
theorem take_of_append : ∀ {ps : List (Piece α)} {a b rest : List α} {parts : List (List α)},
    take ps (a ++ b) = some (parts, rest) → parts.flatten.length ≤ a.length →
      ∃ rest', rest = rest' ++ b ∧ take ps a = some (parts, rest')
  | [], a, b, rest, parts, h, _ => by
    cases h
    exact ⟨a, rfl, rfl⟩
  | p :: ps, a, b, rest, parts, h, hle => by
    rw [take] at h
    cases hp : p.take (a ++ b) with
    | none => rw [hp] at h; cases h
    | some r =>
      obtain ⟨w, more⟩ := r
      rw [hp] at h
      obtain ⟨⟨vs, r⟩, hv, he⟩ := Option.map_eq_some_iff.1 h
      obtain ⟨rfl, rfl⟩ := Prod.mk.inj he
      rw [List.flatten_cons, List.length_append] at hle
      dsimp only at hle
      obtain ⟨more', rfl, hpa⟩ := Piece.take_of_append hp (by omega)
      have hlen := congrArg List.length (Piece.take_sound hpa).1
      rw [List.length_append] at hlen
      obtain ⟨rest', rfl, hps⟩ := take_of_append hv (by omega)
      exact ⟨rest', rfl, by rw [take, hpa]; dsimp only; rw [hps, Option.map_some]⟩

theorem matchLength_of_append {ps : List (Piece α)} {a b : List α} {n : ℕ} (h : matchLength ps (a ++ b) = some n)
    (hle : n ≤ a.length) : matchLength ps a = some n := by
  obtain ⟨⟨parts, rest⟩, htake, rfl⟩ := Option.map_eq_some_iff.1 h
  obtain ⟨rest', -, ha⟩ := take_of_append htake hle
  rw [matchLength, ha]
  rfl

theorem matchLength_eq_none_of_append {ps : List (Piece α)} (hs : Settled ps) {a b : List α}
    (h : matchLength ps (a ++ b) = none) : matchLength ps a = none := by
  rw [← Option.not_isSome_iff_eq_none, matchLength_isSome] at h ⊢
  intro ha
  obtain ⟨parts, rest, rfl, hw⟩ := (take_isSome_iff hs a).1 ha
  exact h ((take_isSome_iff hs _).2 ⟨parts, rest ++ b, List.append_assoc _ _ _, hw⟩)

/-- **At a cut no match lies across, the substitution can be done on either side.** -/
theorem sub_append {ps : List (Piece α)} (hs : Settled ps) (hpos : 0 < least ps) (replacement : List α) {b : List α} :
    ∀ (a : List α) (n : ℕ), Uncut ps n a b →
      sub ps replacement n (a ++ b) = sub ps replacement n a ++ sub ps replacement 0 b
  | [], n, h => by
    rw [Uncut] at h
    subst h
    rw [sub, List.nil_append, List.nil_append]
  | x :: a, n + 1, h => by
    rw [List.cons_append, sub, sub]
    exact sub_append hs hpos replacement a n h
  | x :: a, 0, h => by
    rw [Uncut] at h
    rw [List.cons_append, sub, sub]
    cases hm : matchLength ps (x :: a ++ b) with
    | none =>
      rw [hm] at h
      rw [List.cons_append] at hm
      rw [hm, matchLength_eq_none_of_append hs (a := x :: a) hm]
      dsimp only
      rw [sub_append hs hpos replacement a 0 h]
      rfl
    | some k =>
      cases k with
      | zero =>
        have hle := (matchLength_eq_some hm).1
        omega
      | succ k =>
        rw [hm] at h
        have hk := Uncut.le h
        have hself := matchLength_of_append hm (Nat.succ_le_succ hk)
        rw [List.cons_append] at hm
        rw [hm, hself]
        dsimp only
        rw [sub_append hs hpos replacement a k h, List.append_assoc]

theorem sub_flatten {ps : List (Piece α)} (hs : Settled ps) (hpos : 0 < least ps) (replacement : List α) :
    ∀ (ts : List (List α)), UncutAll ps ts →
      sub ps replacement 0 ts.flatten = (ts.map (sub ps replacement 0)).flatten
  | [], _ => rfl
  | t :: ts, h => by
    rw [List.flatten_cons, sub_append hs hpos replacement t 0 h.1, sub_flatten hs hpos replacement ts h.2]
    rfl

/-! ## What is left after a substitution -/

/-- **A text the replacement leaves alone**: wherever both are found in a text, they are found side by side. -/
def Apart (replacement w : List α) : Prop :=
  ∀ x y a b, x ++ (w ++ y) = a ++ (replacement ++ b) →
    (∃ c, a = x ++ (w ++ c) ∧ y = c ++ (replacement ++ b)) ∨ ∃ c, b = c ++ (w ++ y) ∧ x = a ++ (replacement ++ c)

/-- A replacement between two marks leaves alone what has no mark in it and is not found between them. -/
theorem apart_of_marks {mark : α} {mid w : List α} (hne : w ≠ []) (hmark : mark ∉ w) (hmid : ¬ w <:+: mid) :
    Apart (mark :: (mid ++ [mark])) w := by
  intro x y a b h
  -- a text with the mark at its head does not begin with `w`
  have hhead : ∀ {rest : List α}, w ++ y ≠ mark :: rest := by
    intro rest he
    cases w with
    | nil => exact hne rfl
    | cons c w => exact hmark ((List.cons.inj he).1 ▸ List.mem_cons_self)
  rcases List.append_eq_append_iff.1 h with ⟨c, rfl, hw⟩ | ⟨c, rfl, hr⟩
  · rcases List.append_eq_append_iff.1 hw with ⟨d, rfl, hy⟩ | ⟨d, rfl, hr⟩
    · exact Or.inl ⟨d, rfl, hy⟩
    · cases d with
      | nil => exact Or.inl ⟨[], by simp, by simpa using hr.symm⟩
      | cons m d => exact absurd ((List.cons.inj hr).1 ▸ List.mem_append_right _ List.mem_cons_self) hmark
  · cases c with
    | nil => exact absurd hr.symm hhead
    | cons m c =>
      obtain ⟨rfl, hrest'⟩ := List.cons.inj hr
      have hrest : mid ++ mark :: b = c ++ (w ++ y) := by
        rw [List.append_cons]
        exact hrest'
      rcases List.append_eq_append_iff.1 hrest with ⟨d, rfl, hb⟩ | ⟨d, rfl, hw⟩
      · cases d with
        | nil => exact absurd hb.symm hhead
        | cons m d =>
          obtain ⟨rfl, hb'⟩ := List.cons.inj hb
          exact Or.inr ⟨d, hb', by simp⟩
      · rcases List.append_eq_append_iff.1 hw with ⟨e, rfl, -⟩ | ⟨e, rfl, hb⟩
        · exact absurd ⟨c, e, by simp⟩ hmid
        · cases e with
          | nil => exact absurd ⟨c, [], by simp⟩ hmid
          | cons m e => exact absurd ((List.cons.inj hb).1 ▸ List.mem_append_right _ List.mem_cons_self) hmark

/-- The rest of a text that is left alone was there already, and nothing in it was matched. -/
theorem sub_eq_append {ps : List (Piece α)} (hs : Settled ps) (hpos : 0 < least ps) {replacement w : List α}
    (hr : replacement ≠ []) (ha : Apart replacement w) : ∀ {v t y p : List α}, w = p ++ v →
      sub ps replacement 0 t = v ++ y →
        ∃ rest, t = v ++ rest ∧ Uncut ps 0 v rest ∧ ¬ Occurs ps v ∧ sub ps replacement 0 rest = y
  | [], t, y, p, _, h => by
    refine ⟨t, rfl, rfl, fun hocc => ?_, h⟩
    have hle := hocc.least_le
    rw [List.length_nil] at hle
    omega
  | c :: v, [], y, p, _, h => by cases h
  | c :: v, a :: t, y, p, hw, h => by
    rw [sub] at h
    cases hm : matchLength ps (a :: t) with
    | none =>
      rw [hm] at h
      obtain ⟨rfl, htail⟩ := List.cons.inj h
      obtain ⟨rest, rfl, huncut, hocc, hsub⟩ := sub_eq_append hs hpos hr ha (p := p ++ [a]) (by simp [hw]) htail
      have hself : matchLength ps (a :: v) = none := matchLength_eq_none_of_append hs (a := a :: v) (b := rest) hm
      refine ⟨rest, rfl, ?_, ?_, hsub⟩
      · rw [Uncut, List.cons_append, hm]
        exact huncut
      · rintro ⟨tail, hsuffix, htake⟩
        rcases List.suffix_cons_iff.1 hsuffix with rfl | hsuffix
        · rw [← matchLength_isSome, hself] at htake
          cases htake
        · exact hocc ⟨tail, hsuffix, htake⟩
    | some k =>
      cases k with
      | zero =>
        have hle := (matchLength_eq_some hm).1
        omega
      | succ k =>
        rw [hm] at h
        have hacross : [] ++ (w ++ y) = p ++ (replacement ++ sub ps replacement k t) := by
          rw [hw, List.nil_append, List.append_assoc, ← h]
        rcases ha _ _ _ _ hacross with ⟨d, hd, -⟩ | ⟨d, -, hd⟩
        · rw [hw] at hd
          have hlen := congrArg List.length hd
          simp only [List.nil_append, List.length_append, List.length_cons] at hlen
          omega
        · exact absurd (List.append_eq_nil_iff.1 (List.append_eq_nil_iff.1 hd.symm).2).1 hr

/-- At the end of a text there is nothing to pass over. -/
theorem uncut_nil (ps : List (Piece α)) : ∀ (a : List α) (n : ℕ), n ≤ a.length → Uncut ps n a []
  | [], n, h => Nat.le_zero.1 h
  | _ :: a, n + 1, h => uncut_nil ps a n (Nat.le_of_succ_le_succ h)
  | x :: a, 0, _ => by
    rw [Uncut]
    split
    · rename_i n hm
      have hle := (matchLength_eq_some hm).2
      rw [List.append_nil, List.length_cons] at hle
      exact uncut_nil ps a n (Nat.le_of_succ_le_succ hle)
    · exact uncut_nil ps a 0 (Nat.zero_le _)

/-- **A text that is left alone was there before the substitution**, and no match touches it. -/
theorem sub_eq_split {ps : List (Piece α)} (hs : Settled ps) (hpos : 0 < least ps) {replacement w : List α}
    (hr : replacement ≠ []) (hw : w ≠ []) (ha : Apart replacement w) : ∀ {t : List α} {n : ℕ} {x y : List α},
      sub ps replacement n t = x ++ (w ++ y) → ∃ u v, t = u ++ (w ++ v) ∧ Uncut ps n u (w ++ v) ∧ Uncut ps 0 w v ∧
        ¬ Occurs ps w ∧ sub ps replacement n u = x ∧ sub ps replacement 0 v = y
  | [], n, x, y, h => by
    rw [sub] at h
    exact absurd (List.append_eq_nil_iff.1 (List.append_eq_nil_iff.1 h.symm).2).1 hw
  | a :: t, n + 1, x, y, h => by
    obtain ⟨u, v, rfl, hu, hwv, hocc, hx, hy⟩ := sub_eq_split hs hpos hr hw ha (t := t) (n := n) h
    exact ⟨a :: u, v, rfl, hu, hwv, hocc, hx, hy⟩
  | a :: t, 0, [], y, h => by
    obtain ⟨v, hv, huncut, hocc, hy⟩ := sub_eq_append hs hpos hr ha (p := []) rfl h
    exact ⟨[], v, hv, rfl, huncut, hocc, rfl, hy⟩
  | a :: t, 0, c :: x, y, h => by
    rw [sub] at h
    cases hm : matchLength ps (a :: t) with
    | none =>
      rw [hm] at h
      obtain ⟨rfl, htail⟩ := List.cons.inj h
      obtain ⟨u, v, rfl, hu, hwv, hocc, hx, hy⟩ := sub_eq_split hs hpos hr hw ha (t := t) (n := 0) htail
      have hself : matchLength ps (a :: u) = none := matchLength_eq_none_of_append hs (a := a :: u) (b := w ++ v) hm
      refine ⟨a :: u, v, rfl, ?_, hwv, hocc, ?_, hy⟩
      · rw [Uncut, List.cons_append, hm]
        exact hu
      · rw [sub, hself, hx]
    | some k =>
      cases k with
      | zero =>
        have hle := (matchLength_eq_some hm).1
        omega
      | succ k =>
        rw [hm] at h
        rcases ha (c :: x) y [] (sub ps replacement k t) h.symm with ⟨d, hd, -⟩ | ⟨d, hd, hx⟩
        · cases hd
        · obtain ⟨u, v, rfl, hu, hwv, hocc, hd', hy⟩ := sub_eq_split hs hpos hr hw ha (t := t) (n := k) hd
          have hself := matchLength_of_append (a := a :: u) hm (Nat.succ_le_succ hu.le)
          refine ⟨a :: u, v, rfl, ?_, hwv, hocc, ?_, hy⟩
          · rw [Uncut, List.cons_append, hm]
            exact hu
          · rw [sub, hself]
            dsimp only
            rw [hd', hx]
            rfl

theorem infix_of_sub {ps : List (Piece α)} (hs : Settled ps) (hpos : 0 < least ps) {replacement w text : List α}
    (hr : replacement ≠ []) (hw : w ≠ []) (ha : Apart replacement w) (h : w <:+: sub ps replacement 0 text) :
    w <:+: text := by
  obtain ⟨x, y, hxy⟩ := h
  rw [List.append_assoc] at hxy
  obtain ⟨u, v, rfl, -⟩ := sub_eq_split hs hpos hr hw ha hxy.symm
  exact ⟨u, v, by rw [List.append_assoc]⟩

/-- No word of the piece has this character. -/
def Piece.Rejects (a : α) : Piece α → Prop
  | .each classes => ∀ p ∈ classes, p a = false
  | .run _ cls => cls a = false

theorem Piece.notMem_of_rejects {p : Piece α} {a : α} {w : List α} (h : p.Rejects a) (hw : p.Accepts w) : a ∉ w := by
  intro ha
  cases p with
  | each classes =>
    obtain ⟨i, hi, rfl⟩ := List.mem_iff_getElem.1 ha
    have hlen := hw.length_eq
    have hp := List.Forall₂.get hw (by omega) hi
    have hreject := h classes[i] (List.getElem_mem _)
    rw [List.get_eq_getElem, List.get_eq_getElem, hreject] at hp
    cases hp
  | run least cls =>
    have hcls := hw.2 a ha
    rw [h] at hcls
    cases hcls

theorem notMem_of_rejects : ∀ {ps : List (Piece α)} {parts : List (List α)} {a : α}, (∀ p ∈ ps, p.Rejects a) →
    Words ps parts → a ∉ parts.flatten
  | [], _, _, _, h => by
    cases h
    exact List.not_mem_nil
  | p :: ps, _, a, hps, h => by
    rw [List.forall_mem_cons] at hps
    cases h with
    | cons hp hrest =>
      rw [List.flatten_cons, List.mem_append, not_or]
      exact ⟨Piece.notMem_of_rejects hps.1 hp, notMem_of_rejects hps.2 hrest⟩

/-- Every word of the pattern is left alone. -/
def LeavesWords (replacement : List α) (ps : List (Piece α)) : Prop :=
  ∀ parts, Words ps parts → Apart replacement parts.flatten

theorem exists_word_of_occurs {ps : List (Piece α)} (hs : Settled ps) (hpos : 0 < least ps) {text : List α}
    (h : Occurs ps text) : ∃ parts, Words ps parts ∧ parts.flatten ≠ [] ∧ parts.flatten <:+: text := by
  obtain ⟨tail, ⟨skipped, rfl⟩, htake⟩ := h
  obtain ⟨parts, rest, rfl, hwords⟩ := (take_isSome_iff hs tail).1 htake
  refine ⟨parts, hwords, fun hnil => ?_, skipped, rest, by rw [List.append_assoc]⟩
  have hle := least_le hwords
  rw [hnil, List.length_nil] at hle
  omega

theorem occurs_of_word {ps : List (Piece α)} (hs : Settled ps) {parts : List (List α)} (h : Words ps parts) :
    Occurs ps parts.flatten :=
  ⟨parts.flatten, List.suffix_refl _, (take_isSome_iff hs _).2 ⟨parts, [], (List.append_nil _).symm, h⟩⟩

/-- A substitution makes no match of another pattern. -/
theorem occurs_of_sub {ps qs : List (Piece α)} (hs : Settled ps) (hpos : 0 < least ps) (hqs : Settled qs)
    (hqpos : 0 < least qs) {replacement text : List α} (hr : replacement ≠ []) (hq : LeavesWords replacement qs)
    (h : Occurs qs (sub ps replacement 0 text)) : Occurs qs text := by
  obtain ⟨parts, hwords, hne, hinfix⟩ := exists_word_of_occurs hqs hqpos h
  have hocc := occurs_of_word hqs hwords
  exact hocc.of_infix hqs (infix_of_sub hs hpos hr hne (hq parts hwords) hinfix)

/-- **After a substitution nothing matches.** -/
theorem not_occurs_sub {ps : List (Piece α)} (hs : Settled ps) (hpos : 0 < least ps) {replacement text : List α}
    (hr : replacement ≠ []) (hps : LeavesWords replacement ps) : ¬ Occurs ps (sub ps replacement 0 text) := by
  intro h
  obtain ⟨parts, hwords, hne, x, y, hxy⟩ := exists_word_of_occurs hs hpos h
  rw [List.append_assoc] at hxy
  obtain ⟨u, v, -, -, -, hocc, -⟩ := sub_eq_split hs hpos hr hne (hps parts hwords) hxy.symm
  exact hocc (occurs_of_word hs hwords)

end Pattern
end Lib
