import Mathlib.Data.List.DropRight
import Mathlib.Data.List.Basic
/-!
# Text — Python's string methods on lists of characters

`splitlines` breaks at every line boundary Python knows and drops the empty line after a last one; its lines hold no
boundary, and lines that hold none, joined by a newline, split into no more lines than were joined.
-/
namespace Lib

abbrev Text := List Char

/-- Numbers put after the same text make different texts. -/
theorem numbered_injective (stem : String) : Function.Injective fun n : ℕ => stem ++ Nat.repr n := by
  intro m n h
  have hrepr : Nat.repr m = Nat.repr n := (String.append_right_inj stem).1 h
  have hdigits : Nat.toDigits 10 m = Nat.toDigits 10 n := by
    rw [← Nat.toList_repr, ← Nat.toList_repr, hrepr]
  rw [← Nat.ofDigitChars_ten_toDigits (n := m), hdigits, Nat.ofDigitChars_ten_toDigits]

/-- **Numbers with as many digits**: where their texts first differ, the lesser has the lesser digit. -/
theorem exists_digit_lt (m : ℕ) : ∀ n, m < n → (Nat.toDigits 10 m).length = (Nat.toDigits 10 n).length →
    ∃ common c d ms ns, Nat.toDigits 10 m = common ++ c :: ms ∧ Nat.toDigits 10 n = common ++ d :: ns ∧ c < d := by
  have hdigit : ∀ j < 10, ∀ i < j, Nat.digitChar i < Nat.digitChar j := by decide
  have hpos : ∀ k, 0 < (Nat.toDigits 10 k).length := fun k => List.length_pos_iff.2 Nat.toDigits_ne_nil
  induction m using Nat.strong_induction_on with
  | _ m ih =>
    intro n hlt hlen
    rcases Nat.lt_or_ge n 10 with hn | hn
    · exact ⟨[], _, _, [], [], Nat.toDigits_of_lt_base (by omega), Nat.toDigits_of_lt_base hn, hdigit n hn m hlt⟩
    rcases Nat.lt_or_ge m 10 with hm | hm
    · rw [Nat.toDigits_of_lt_base hm, Nat.toDigits_of_base_le (by decide) hn, List.length_append] at hlen
      have hmore := hpos (n / 10)
      simp only [List.length_singleton] at hlen
      omega
    rw [Nat.toDigits_of_base_le (by decide) hm, Nat.toDigits_of_base_le (by decide) hn] at hlen ⊢
    rw [List.length_append, List.length_append, List.length_singleton, List.length_singleton,
      Nat.add_right_cancel_iff] at hlen
    rcases Nat.lt_or_ge (m / 10) (n / 10) with hq | hq
    · obtain ⟨common, c, d, ms, ns, hms, hns, hcd⟩ := ih (m / 10) (by omega) (n / 10) hq hlen
      exact ⟨common, c, d, _, _, by rw [hms, List.append_assoc, List.cons_append],
        by rw [hns, List.append_assoc, List.cons_append], hcd⟩
    · have hsame : m / 10 = n / 10 := by omega
      exact ⟨Nat.toDigits 10 (m / 10), _, _, [], [], rfl, by rw [hsame],
        hdigit (n % 10) (Nat.mod_lt _ (by decide)) (m % 10) (by omega)⟩

namespace Text

/-- `str.isspace` of one character, and `\s` of a pattern. -/
def isSpace (c : Char) : Bool :=
  (9 ≤ c.toNat && c.toNat ≤ 13) || (28 ≤ c.toNat && c.toNat ≤ 32) || c.toNat = 133 || c.toNat = 160 ||
    c.toNat = 5760 || (8192 ≤ c.toNat && c.toNat ≤ 8202) || c.toNat = 8232 || c.toNat = 8233 || c.toNat = 8239 ||
    c.toNat = 8287 || c.toNat = 12288

/-- The line boundaries of `str.splitlines`. -/
def isLineBreak (c : Char) : Bool :=
  (10 ≤ c.toNat && c.toNat ≤ 13) || (28 ≤ c.toNat && c.toNat ≤ 30) || c.toNat = 133 || c.toNat = 8232 || c.toNat = 8233

/-- The lines of the rest of a text, after what the line has so far; `\r\n` is one boundary. -/
def linesFrom : Text → Text → List Text
  | line, [] => if line = [] then [] else [line]
  | line, '\r' :: '\n' :: rest => line :: linesFrom [] rest
  | line, c :: rest => if isLineBreak c then line :: linesFrom [] rest else linesFrom (line ++ [c]) rest

def splitlines (text : Text) : List Text := linesFrom [] text

def lstrip (text : Text) : Text := text.dropWhile isSpace

def strip (text : Text) : Text := (lstrip text).rdropWhile isSpace

/-- `str.partition`: before and after the first separator, if there is one. -/
def partition (sep : Text) : Text → Option (Text × Text)
  | [] => if sep = [] then some ([], []) else none
  | c :: rest =>
    if sep.isPrefixOf (c :: rest) then some ([], (c :: rest).drop sep.length)
    else (partition sep rest).map (fun p => (c :: p.1, p.2))

/-- `str.rpartition`, for a separator of one character: before and after the last one, if there is one. -/
def rpartition (sep : Char) (text : Text) : Option (Text × Text) :=
  if sep ∈ text then some ((text.rdropWhile (· ≠ sep)).dropLast, text.rtakeWhile (· ≠ sep)) else none

/-- `sep.join(parts)`. -/
def join (sep : Text) (parts : List Text) : Text := sep.intercalate parts

/-- `xs[i:]`. -/
def sliceFrom {α : Type} (xs : List α) (i : Int) : List α :=
  if i < 0 then xs.drop (xs.length - i.natAbs) else xs.drop i.toNat

theorem sliceFrom_neg {α : Type} (xs : List α) {n : Nat} (h : 0 < n) : sliceFrom xs (-(n : Int)) = xs.drop (xs.length - n) := by
  unfold sliceFrom
  rw [if_pos (by omega)]
  congr 1
  omega

/-! ## Characters -/

theorem toNat_of_isAlphanum {c : Char} (h : c.isAlphanum = true) :
    (48 ≤ c.toNat ∧ c.toNat ≤ 57) ∨ (65 ≤ c.toNat ∧ c.toNat ≤ 90) ∨ (97 ≤ c.toNat ∧ c.toNat ≤ 122) := by
  have hvals : ((decide (c.val ≥ 'A'.val ∧ c.val ≤ 'Z'.val) || (decide (c.val ≥ 'a'.val) && decide (c.val ≤ 'z'.val))) ||
      (decide (c.val ≥ '0'.val) && decide (c.val ≤ '9'.val))) = true := h
  simp only [Bool.or_eq_true, Bool.and_eq_true, decide_eq_true_eq, UInt32.le_iff_toNat_le, ge_iff_le] at hvals
  change ((65 ≤ c.toNat ∧ c.toNat ≤ 90) ∨ (97 ≤ c.toNat ∧ c.toNat ≤ 122)) ∨ (48 ≤ c.toNat ∧ c.toNat ≤ 57) at hvals
  omega

/-! ## Ends -/

/-- **The last separator** is the one with none after it. -/
theorem rpartition_eq_some_iff {sep : Char} {text before after : Text} :
    rpartition sep text = some (before, after) ↔ text = before ++ sep :: after ∧ sep ∉ after := by
  have hsplit : ∀ {before after : Text}, sep ∉ after →
      rpartition sep (before ++ sep :: after) = some (before, after) := by
    intro before after h
    have hne : ∀ c ∈ after.reverse, decide (c ≠ sep) = true := by
      intro c hc
      simp only [decide_eq_true_eq]
      rintro rfl
      exact h (List.mem_reverse.1 hc)
    have hstop : (sep :: before.reverse).dropWhile (fun c => decide (c ≠ sep)) = sep :: before.reverse := by
      simp
    have htake : (sep :: before.reverse).takeWhile (fun c => decide (c ≠ sep)) = [] := by
      simp
    rw [rpartition, if_pos (List.mem_append_right _ List.mem_cons_self), List.rdropWhile, List.rtakeWhile]
    have hreverse : (before ++ sep :: after).reverse = after.reverse ++ sep :: before.reverse := by
      simp
    rw [hreverse, List.dropWhile_append_of_pos hne, List.takeWhile_append_of_pos hne, hstop, htake]
    simp
  constructor
  · intro h
    have hmem : sep ∈ text := by
      by_contra hn
      rw [rpartition, if_neg hn] at h
      cases h
    obtain ⟨a, b, rfl, hb⟩ : ∃ a b, text = a ++ sep :: b ∧ sep ∉ b := by
      obtain ⟨a, b, hab, ha⟩ := List.eq_append_cons_of_mem (List.mem_reverse.2 hmem)
      refine ⟨b.reverse, a.reverse, ?_, fun hm => ha (List.mem_reverse.1 hm)⟩
      rw [← List.reverse_inj, hab]
      simp
    rw [hsplit hb] at h
    cases h
    exact ⟨rfl, hb⟩
  · rintro ⟨rfl, h⟩
    exact hsplit h

/-- A text with no blank at its ends is stripped already. -/
theorem strip_eq_self {c d : Char} {text rest init : Text} (hfirst : text = c :: rest) (hlast : text = init ++ [d])
    (hc : isSpace c = false) (hd : isSpace d = false) : strip text = text := by
  have hl : lstrip text = text := by
    rw [lstrip, hfirst, List.dropWhile_cons_of_neg (by rw [hc]; exact Bool.false_ne_true)]
  rw [strip, hl, hlast, List.rdropWhile_concat_neg _ _ _ (by rw [hd]; exact Bool.false_ne_true)]

/-- **Blanks around a text** are stripped with its own. -/
theorem strip_padded {before after : Text} (hbefore : ∀ c ∈ before, isSpace c = true)
    (hafter : ∀ c ∈ after, isSpace c = true) (text : Text) : strip (before ++ text ++ after) = strip text := by
  have hright : ∀ l : Text, (l ++ after).rdropWhile isSpace = l.rdropWhile isSpace := by
    intro l
    rw [List.rdropWhile, List.rdropWhile, List.reverse_append,
      List.dropWhile_append_of_pos (fun c hc => hafter c (List.mem_reverse.1 hc))]
  rw [strip, strip, lstrip, lstrip, List.append_assoc, List.dropWhile_append_of_pos hbefore, List.dropWhile_append]
  split
  · rename_i hempty
    rw [List.isEmpty_iff.1 hempty, List.dropWhile_eq_nil_iff.2 hafter]
  · exact hright _

/-! ## Lines -/

/-- A line holds no boundary. -/
def Unbroken (line : Text) : Prop := ∀ c ∈ line, isLineBreak c = false

theorem all_eq_true_iff_unbroken (line : Text) : (line.all fun c => !isLineBreak c) = true ↔ Unbroken line := by
  simp only [List.all_eq_true, Bool.not_eq_eq_eq_not, Bool.not_true, Unbroken]

instance (line : Text) : Decidable (Unbroken line) :=
  decidable_of_iff _ (all_eq_true_iff_unbroken line)

theorem Unbroken.append {a b : Text} (ha : Unbroken a) (hb : Unbroken b) : Unbroken (a ++ b) := by
  intro c hc
  rw [List.mem_append] at hc
  rcases hc with hc | hc
  · exact ha c hc
  · exact hb c hc

theorem linesFrom_cons_of_unbroken {c : Char} (hc : isLineBreak c = false) (line rest : Text) :
    linesFrom line (c :: rest) = linesFrom (line ++ [c]) rest := by
  rw [linesFrom]
  · rw [hc]
    rfl
  · intro rest' h1 _
    rw [h1] at hc
    exact absurd hc (by decide)

/-- An unbroken piece goes into the line as it stands. -/
theorem linesFrom_append {piece : Text} (h : Unbroken piece) (line rest : Text) :
    linesFrom line (piece ++ rest) = linesFrom (line ++ piece) rest := by
  induction piece generalizing line with
  | nil => rw [List.nil_append, List.append_nil]
  | cons c piece ih =>
    rw [List.cons_append, linesFrom_cons_of_unbroken (h c List.mem_cons_self),
      ih (fun d hd => h d (List.mem_cons_of_mem _ hd)), List.append_assoc, List.singleton_append]

theorem linesFrom_newline (line rest : Text) : linesFrom line ('\n' :: rest) = line :: linesFrom [] rest := by
  rw [linesFrom]
  · rfl
  · intro rest' h
    exact absurd h (by decide)

/-- **The lines of a text hold no boundary.** -/
theorem unbroken_of_mem_linesFrom (line text : Text) (h : Unbroken line) : ∀ l ∈ linesFrom line text, Unbroken l := by
  fun_induction linesFrom line text with
  | case1 => intro l hl; cases hl
  | case2 line hne =>
    intro l hl
    rw [List.mem_singleton.1 hl]
    exact h
  | case3 line rest ih =>
    intro l hl
    rcases List.mem_cons.1 hl with rfl | hl
    · exact h
    · exact ih (fun c hc => by cases hc) l hl
  | case4 line c rest _ hbreak ih =>
    intro l hl
    rcases List.mem_cons.1 hl with rfl | hl
    · exact h
    · exact ih (fun c hc => by cases hc) l hl
  | case5 line c rest _ hbreak ih =>
    refine ih (fun d hd => ?_)
    rcases List.mem_append.1 hd with hd | hd
    · exact h d hd
    · rw [List.mem_singleton.1 hd]
      exact Bool.eq_false_iff.2 hbreak

theorem unbroken_of_mem_splitlines {text l : Text} (h : l ∈ splitlines text) : Unbroken l :=
  unbroken_of_mem_linesFrom [] text (fun c hc => by cases hc) l h

/-- **A text whose only boundary is the newline**, with a line after it: its pieces between newlines are its lines. -/
theorem linesFrom_append_newline {body : Text} (h : ∀ c ∈ body, isLineBreak c = true → c = '\n') (line rest : Text)
    (hline : Unbroken line) :
    linesFrom line (body ++ '\n' :: rest) = (line ++ body).splitOn '\n' ++ linesFrom [] rest := by
  have hnot : ∀ l : Text, Unbroken l → '\n' ∉ l := by
    intro l hl hmem
    exact absurd (hl _ hmem) (by decide)
  induction body generalizing line with
  | nil => rw [List.nil_append, List.append_nil, linesFrom_newline, List.splitOn_eq_singleton (hnot line hline)]; rfl
  | cons c body ih =>
    have hbody : ∀ d ∈ body, isLineBreak d = true → d = '\n' := fun d hd => h d (List.mem_cons_of_mem c hd)
    cases hc : isLineBreak c with
    | true =>
      obtain rfl := h c List.mem_cons_self hc
      rw [List.cons_append, linesFrom_newline, ih hbody [] (fun d hd => by cases hd), List.nil_append,
        List.splitOn_append_cons_self_of_not_mem (hnot line hline)]
      rfl
    | false =>
      rw [List.cons_append, linesFrom_cons_of_unbroken hc, ih hbody, List.append_assoc, List.singleton_append]
      refine hline.append (fun d hd => ?_)
      rw [List.mem_singleton.1 hd]
      exact hc

/-- What lines that hold no boundary are joined to has none but newlines. -/
theorem eq_newline_of_mem_join : ∀ {lines : List Text}, (∀ l ∈ lines, Unbroken l) → ∀ c ∈ join ['\n'] lines,
    isLineBreak c = true → c = '\n'
  | [], _, c, hc, _ => by cases hc
  | [l], h, c, hc, hbreak => by
    rw [join, List.intercalate_singleton] at hc
    rw [h l List.mem_cons_self c hc] at hbreak
    cases hbreak
  | l :: m :: ls, h, c, hc, hbreak => by
    rw [join, List.intercalate_cons_cons, List.mem_append, List.mem_append, List.mem_singleton] at hc
    rcases hc with (hc | rfl) | hc
    · rw [h l List.mem_cons_self c hc] at hbreak
      cases hbreak
    · rfl
    · exact eq_newline_of_mem_join (fun x hx => h x (List.mem_cons_of_mem l hx)) c hc hbreak

/-- **The lines of a text have its other characters**, in their order. -/
theorem filter_flatten_linesFrom (line text : Text) :
    (linesFrom line text).flatten.filter (fun c => !isLineBreak c) = (line ++ text).filter (fun c => !isLineBreak c) := by
  fun_induction linesFrom line text with
  | case1 => rfl
  | case2 line hne => simp
  | case3 line rest ih =>
    have hr : isLineBreak '\r' = true := rfl
    have hn : isLineBreak '\n' = true := rfl
    simp [ih, hr, hn]
  | case4 line c rest _ hbreak ih => simp [ih, hbreak]
  | case5 line c rest _ hbreak ih => simp [ih]

theorem filter_join (lines : List Text) :
    (join ['\n'] lines).filter (fun c => !isLineBreak c) = lines.flatten.filter (fun c => !isLineBreak c) := by
  have hn : isLineBreak '\n' = true := rfl
  induction lines with
  | nil => rfl
  | cons l lines ih =>
    cases lines with
    | nil => simp [join, List.intercalate_singleton]
    | cons m ls =>
      rw [join] at ih ⊢
      rw [List.intercalate_cons_cons, List.filter_append, List.filter_append, ih]
      simp [hn]

theorem linesFrom_cons_of_break {c : Char} (hc : isLineBreak c = true) {rest : Text}
    (h : c = '\r' → ∀ rest', rest ≠ '\n' :: rest') (line : Text) :
    linesFrom line (c :: rest) = line :: linesFrom [] rest := by
  rw [linesFrom, if_pos hc]
  intro rest' hcr he
  exact h hcr rest' he

/-- **A newline ends a line**, whatever is before it. -/
theorem exists_linesFrom_append_newline (line text rest : Text) :
    ∃ before, linesFrom line (text ++ '\n' :: rest) = before ++ linesFrom [] rest := by
  -- `\r\n` takes two characters at a time
  induction text using List.twoStepInduction generalizing line with
  | nil => exact ⟨[line], linesFrom_newline line rest⟩
  | singleton c =>
    by_cases hc : isLineBreak c = true
    · by_cases hcr : c = '\r'
      · subst hcr
        exact ⟨[line], rfl⟩
      · refine ⟨[line, []], ?_⟩
        rw [List.singleton_append, linesFrom_cons_of_break hc (fun h => absurd h hcr), linesFrom_newline]
        rfl
    · refine ⟨[line ++ [c]], ?_⟩
      rw [List.singleton_append, linesFrom_cons_of_unbroken (Bool.eq_false_iff.2 hc), linesFrom_newline]
      rfl
  | cons_cons c d text ih ih' =>
    by_cases hc : isLineBreak c = true
    · by_cases hcrlf : c = '\r' ∧ d = '\n'
      · obtain ⟨rfl, rfl⟩ := hcrlf
        obtain ⟨before, h⟩ := ih []
        refine ⟨line :: before, ?_⟩
        rw [List.cons_append, List.cons_append, linesFrom, h, List.cons_append]
      · obtain ⟨before, h⟩ := ih' d []
        refine ⟨line :: before, ?_⟩
        rw [List.cons_append, linesFrom_cons_of_break hc, h, List.cons_append]
        intro hcr rest' he
        exact hcrlf ⟨hcr, (List.cons.inj he).1⟩
    · obtain ⟨before, h⟩ := ih' d (line ++ [c])
      refine ⟨before, ?_⟩
      rw [List.cons_append, linesFrom_cons_of_unbroken (Bool.eq_false_iff.2 hc), h]

/-- **Joined lines split into no more lines**: the last one vanishes when it is empty. -/
theorem length_splitlines_join_le : ∀ (ls : List Text), (∀ l ∈ ls, Unbroken l) →
    (splitlines (join ['\n'] ls)).length ≤ ls.length
  | [], _ => le_refl _
  | [l], h => by
    have hl : splitlines (join ['\n'] [l]) = if l = [] then [] else [l] := by
      have happ := linesFrom_append (h l List.mem_cons_self) [] []
      rw [List.append_nil, List.nil_append] at happ
      have hj : join ['\n'] [l] = l := List.intercalate_singleton
      rw [hj, splitlines, happ, linesFrom]
    rw [hl]
    split
    · exact Nat.zero_le _
    · exact le_refl _
  | l :: m :: ls, h => by
    have hj : join ['\n'] (l :: m :: ls) = l ++ '\n' :: join ['\n'] (m :: ls) := by
      rw [join, List.intercalate_cons_cons, List.append_assoc]
      rfl
    have ih := length_splitlines_join_le (m :: ls) (fun x hx => h x (List.mem_cons_of_mem _ hx))
    rw [hj, splitlines, linesFrom_append (h l List.mem_cons_self), List.nil_append, linesFrom_newline, List.length_cons,
      List.length_cons]
    exact Nat.succ_le_succ ih

end Text
end Lib
