import DevHarness.Lib.Text
import Mathlib.Tactic.NormNum
/-!
# JsonText — JSON as Python's `json` writes it and reads it back

`dumps` writes ASCII: what is not printable is escaped, a character beyond the basic plane as two surrogates.  `loads`
skips blanks and reads a value by recursive descent.  A float is its text, which `json` writes and reads unchanged.  What
is written is read back (`loads_dumps`), and it has no line break in it (`not_mem_dumps`).
-/
namespace Lib
namespace JsonText

/-! ## Values -/

/-- The characters of numbers and names. -/
def isToken (c : Char) : Bool := c.isAlphanum || c = '+' || c = '-' || c = '.'

def allDigits (t : Text) : Bool := !t.isEmpty && t.all Char.isDigit

def isExponent : Text → Bool
  | c :: '+' :: t => (c = 'e' || c = 'E') && allDigits t
  | c :: '-' :: t => (c = 'e' || c = 'E') && allDigits t
  | c :: t => (c = 'e' || c = 'E') && allDigits t
  | [] => false

/-- What makes a number a float: a fraction, an exponent, or both. -/
def isReal : Text → Bool
  | '.' :: t => !(t.takeWhile Char.isDigit).isEmpty &&
      ((t.dropWhile Char.isDigit).isEmpty || isExponent (t.dropWhile Char.isDigit))
  | t => isExponent t

/-- No zero before another digit. -/
def isNatural (t : Text) : Bool := allDigits t && (t.head? ≠ some '0' || t.length = 1)

def unsigned (t : Text) : Text := if t.head? = some '-' then t.tail else t

def isDecimal (t : Text) : Bool :=
  isNatural ((unsigned t).takeWhile Char.isDigit) && isReal ((unsigned t).dropWhile Char.isDigit)

/-- The text of a float. -/
def isFloat (t : Text) : Bool :=
  t.all isToken && t.any (fun c => !(c.isDigit || c = '-')) &&
    (t = "NaN".toList || t = "Infinity".toList || t = "-Infinity".toList || isDecimal t)

structure FloatText where
  text : Text
  isFloat : isFloat text = true
  deriving DecidableEq

inductive Value where
  | null
  | bool (b : Bool)
  | int (n : ℤ)
  | float (x : FloatText)
  | str (s : Text)
  | list (items : List Value)
  | dict (items : List (Text × Value))

/-! ## Writing -/

def hex4 (n : ℕ) : Text :=
  [Nat.digitChar (n / 4096 % 16), Nat.digitChar (n / 256 % 16), Nat.digitChar (n / 16 % 16), Nat.digitChar (n % 16)]

def unicodeEscape (n : ℕ) : Text := '\\' :: 'u' :: hex4 n

def escapeChar (c : Char) : Text :=
  if c = '"' then ['\\', '"']
  else if c = '\\' then ['\\', '\\']
  else if c = '\n' then ['\\', 'n']
  else if c = '\r' then ['\\', 'r']
  else if c = '\t' then ['\\', 't']
  else if c.toNat = 8 then ['\\', 'b']
  else if c.toNat = 12 then ['\\', 'f']
  else if 0x20 ≤ c.toNat ∧ c.toNat ≤ 0x7e then [c]
  else if c.toNat < 0x10000 then unicodeEscape c.toNat
  else unicodeEscape (0xD800 + (c.toNat - 0x10000) / 0x400) ++ unicodeEscape (0xDC00 + (c.toNat - 0x10000) % 0x400)

def quote (s : Text) : Text := '"' :: (s.flatMap escapeChar ++ ['"'])

def intText : ℤ → Text
  | .ofNat n => Nat.toDigits 10 n
  | .negSucc n => '-' :: Nat.toDigits 10 (n + 1)

mutual

/-- `json.dumps`. -/
def dumps : Value → Text
  | .null => "null".toList
  | .bool b => if b then "true".toList else "false".toList
  | .int n => intText n
  | .float x => x.text
  | .str s => quote s
  | .list items => '[' :: dumpsItems items
  | .dict items => '{' :: dumpsMembers items

def dumpsItems : List Value → Text
  | [] => [']']
  | v :: rest => dumps v ++ dumpsMoreItems rest

def dumpsMoreItems : List Value → Text
  | [] => [']']
  | v :: rest => ',' :: ' ' :: (dumps v ++ dumpsMoreItems rest)

def dumpsMembers : List (Text × Value) → Text
  | [] => ['}']
  | (k, v) :: rest => quote k ++ ':' :: ' ' :: (dumps v ++ dumpsMoreMembers rest)

def dumpsMoreMembers : List (Text × Value) → Text
  | [] => ['}']
  | (k, v) :: rest => ',' :: ' ' :: (quote k ++ ':' :: ' ' :: (dumps v ++ dumpsMoreMembers rest))

end

/-! ## Reading -/

def isBlank (c : Char) : Bool := c = ' ' || c = '\t' || c = '\n' || c = '\r'

def skip (t : Text) : Text := t.dropWhile isBlank

def unhex (c : Char) : Option ℕ :=
  if '0' ≤ c ∧ c ≤ '9' then some (c.toNat - 48)
  else if 'a' ≤ c ∧ c ≤ 'f' then some (c.toNat - 87)
  else if 'A' ≤ c ∧ c ≤ 'F' then some (c.toNat - 55)
  else none

def readHex (a b c d : Char) : Option ℕ :=
  match unhex a, unhex b, unhex c, unhex d with
  | some a, some b, some c, some d => some (a * 4096 + b * 256 + c * 16 + d)
  | _, _, _, _ => none

def simpleEscape (c : Char) : Option Char :=
  if c = '"' then some '"' else if c = '\\' then some '\\' else if c = '/' then some '/'
  else if c = 'b' then some (Char.ofNat 8) else if c = 'f' then some (Char.ofNat 12)
  else if c = 'n' then some '\n' else if c = 'r' then some '\r' else if c = 't' then some '\t' else none

/-- The string up to its closing quote, and what follows.  A surrogate by itself is no character. -/
def unescape : Text → Option (Text × Text)
  | [] => none
  | '\\' :: 'u' :: a :: b :: c :: d :: rest =>
    match readHex a b c d with
    | none => none
    | some n =>
      if n < 0xD800 ∨ 0xE000 ≤ n then (unescape rest).map (fun r => (Char.ofNat n :: r.1, r.2))
      else match rest with
        | '\\' :: 'u' :: e :: f :: g :: h :: rest' =>
          match readHex e f g h with
          | none => none
          | some m =>
            if n < 0xDC00 ∧ 0xDC00 ≤ m ∧ m < 0xE000 then
              (unescape rest').map (fun r => (Char.ofNat (0x10000 + (n - 0xD800) * 0x400 + (m - 0xDC00)) :: r.1, r.2))
            else none
        | _ => none
  | '\\' :: c :: rest =>
    match simpleEscape c with
    | none => none
    | some e => (unescape rest).map (fun r => (e :: r.1, r.2))
  | c :: rest =>
    if c = '"' then some ([], rest)
    else if c.toNat < 0x20 ∨ c = '\\' then none
    else (unescape rest).map (fun r => (c :: r.1, r.2))

def readInt (t : Text) : Option ℤ :=
  if isNatural (unsigned t) then
    some (if t.head? = some '-' then -(Nat.ofDigitChars 10 (unsigned t) 0 : ℤ) else (Nat.ofDigitChars 10 t 0 : ℤ))
  else none

/-- A name or a number. -/
def scalar (t : Text) : Option Value :=
  if t = "null".toList then some .null
  else if t = "true".toList then some (.bool true)
  else if t = "false".toList then some (.bool false)
  else match readInt t with
    | some n => some (.int n)
    | none => if h : isFloat t = true then some (.float ⟨t, h⟩) else none

mutual

/-- A value at the head of a text, and what follows it. -/
def parseValue : ℕ → Text → Option (Value × Text)
  | 0, _ => none
  | n + 1, text =>
    match text with
    | '"' :: rest => (unescape rest).map (fun r => (.str r.1, r.2))
    | '[' :: rest => match skip rest with
      | ']' :: rest' => some (.list [], rest')
      | rest' => (parseItems n rest').map (fun r => (.list r.1, r.2))
    | '{' :: rest => match skip rest with
      | '}' :: rest' => some (.dict [], rest')
      | rest' => (parseMembers n rest').map (fun r => (.dict r.1, r.2))
    | text => (scalar (text.takeWhile isToken)).map (fun v => (v, text.dropWhile isToken))

def parseItems : ℕ → Text → Option (List Value × Text)
  | 0, _ => none
  | n + 1, text =>
    match parseValue n text with
    | none => none
    | some (v, rest) => match skip rest with
      | ',' :: rest' => (parseItems n (skip rest')).map (fun r => (v :: r.1, r.2))
      | ']' :: rest' => some ([v], rest')
      | _ => none

def parseMembers : ℕ → Text → Option (List (Text × Value) × Text)
  | 0, _ => none
  | n + 1, text =>
    match text with
    | '"' :: text' => match unescape text' with
      | none => none
      | some (k, rest) => match skip rest with
        | ':' :: rest' => match parseValue n (skip rest') with
          | none => none
          | some (v, more) => match skip more with
            | ',' :: more' => (parseMembers n (skip more')).map (fun r => ((k, v) :: r.1, r.2))
            | '}' :: more' => some ([(k, v)], more')
            | _ => none
        | _ => none
    | _ => none

end

/-- `json.loads`. -/
def loads (text : Text) : Option Value :=
  match parseValue (text.length + 1) (skip text) with
  | none => none
  | some (v, rest) => if skip rest = [] then some v else none

/-! ## Strings -/

theorem unhex_digitChar : ∀ n, n < 16 → unhex (Nat.digitChar n) = some n := by decide

theorem readHex_hex4 {n : ℕ} (h : n < 65536) :
    readHex (Nat.digitChar (n / 4096 % 16)) (Nat.digitChar (n / 256 % 16)) (Nat.digitChar (n / 16 % 16))
      (Nat.digitChar (n % 16)) = some n := by
  have hdigit : ∀ k, unhex (Nat.digitChar (k % 16)) = some (k % 16) := fun k =>
    unhex_digitChar _ (Nat.mod_lt k (by omega))
  simp only [readHex, hdigit, Option.some.injEq]
  omega

theorem char_toNat_lt (c : Char) : c.toNat < 0xD800 ∨ (0xDFFF < c.toNat ∧ c.toNat < 0x110000) := c.valid

/-- A character of the basic plane, escaped. -/
theorem unescape_unicodeEscape {n : ℕ} (h : n < 65536) (hs : n < 0xD800 ∨ 0xE000 ≤ n) (t : Text) :
    unescape (unicodeEscape n ++ t) = (unescape t).map (fun r => (Char.ofNat n :: r.1, r.2)) := by
  simp only [unicodeEscape, hex4, List.cons_append, List.nil_append]
  rw [unescape]
  simp only [readHex_hex4 h, if_pos hs]

/-- A character beyond it, as two surrogates. -/
theorem unescape_surrogates {n : ℕ} (h : n < 0x100000) (t : Text) :
    unescape (unicodeEscape (0xD800 + n / 0x400) ++ unicodeEscape (0xDC00 + n % 0x400) ++ t) =
      (unescape t).map (fun r => (Char.ofNat (0x10000 + n) :: r.1, r.2)) := by
  have hhigh : 0xD800 + n / 0x400 < 65536 := by omega
  have hlow : 0xDC00 + n % 0x400 < 65536 := by omega
  have hnot : ¬ (0xD800 + n / 0x400 < 0xD800 ∨ 0xE000 ≤ 0xD800 + n / 0x400) := by omega
  have hpair : 0xD800 + n / 0x400 < 0xDC00 ∧ 0xDC00 ≤ 0xDC00 + n % 0x400 ∧ 0xDC00 + n % 0x400 < 0xE000 := by omega
  have hvalue : 0x10000 + (0xD800 + n / 0x400 - 0xD800) * 0x400 + (0xDC00 + n % 0x400 - 0xDC00) = 0x10000 + n := by omega
  simp only [unicodeEscape, hex4, List.cons_append, List.nil_append]
  rw [unescape]
  simp only [readHex_hex4 hhigh, if_neg hnot, readHex_hex4 hlow, if_pos hpair, hvalue]

theorem unescape_escapeChar (c : Char) (t : Text) :
    unescape (escapeChar c ++ t) = (unescape t).map (fun r => (c :: r.1, r.2)) := by
  have hofNat : ∀ n, c.toNat = n → Char.ofNat n = c := by
    rintro n rfl
    exact Char.ofNat_toNat c
  have hrange := char_toNat_lt c
  unfold escapeChar
  split_ifs with hq hb hn hr ht hbs hff hp hu
  · subst hq; rfl
  · subst hb; rfl
  · subst hn; rfl
  · subst hr; rfl
  · subst ht; rfl
  · rw [← hofNat 8 hbs]; rfl
  · rw [← hofNat 12 hff]; rfl
  · rw [List.cons_append, List.nil_append, unescape]
    · rw [if_neg hq, if_neg]
      rintro (h | h)
      · omega
      · exact hb h
    · rintro _ _ _ _ _ rfl -
      exact hb rfl
    · rintro _ _ rfl -
      exact hb rfl
  · rw [unescape_unicodeEscape hu (by omega), hofNat _ rfl]
  · rw [unescape_surrogates (by omega), hofNat _ (by omega)]

/-- **A quoted text is read up to its closing quote.** -/
theorem unescape_quote (s t : Text) : unescape (s.flatMap escapeChar ++ '"' :: t) = some (s, t) := by
  induction s with
  | nil => rfl
  | cons c s ih => rw [List.flatMap_cons, List.append_assoc, unescape_escapeChar, ih]; rfl

/-! ## Names and numbers -/

/-- What follows a value: nothing that could be read as part of it. -/
def Stops (t : Text) : Prop := ∀ c ∈ t.head?, isToken c = false

theorem takeWhile_token {token rest : Text} (h : ∀ c ∈ token, isToken c = true) (hr : Stops rest) :
    (token ++ rest).takeWhile isToken = token ∧ (token ++ rest).dropWhile isToken = rest := by
  cases rest with
  | nil =>
    rw [List.append_nil]
    exact ⟨List.takeWhile_eq_self_iff.2 h, List.dropWhile_eq_nil_iff.2 h⟩
  | cons c rest =>
    have hc : ¬ isToken c = true := by
      rw [hr c rfl]
      exact Bool.false_ne_true
    rw [List.takeWhile_append_of_pos h, List.dropWhile_append_of_pos h, List.takeWhile_cons_of_neg hc,
      List.dropWhile_cons_of_neg hc, List.append_nil]
    exact ⟨rfl, rfl⟩

theorem toDigits_head {n : ℕ} (h : n ≠ 0) : (Nat.toDigits 10 n).head? ≠ some '0' := by
  induction n using Nat.strongRecOn with
  | ind n ih =>
    by_cases hlt : n < 10
    · rw [Nat.toDigits_of_lt_base hlt]
      have hdigit : ∀ k, k < 10 → k ≠ 0 → [Nat.digitChar k].head? ≠ some '0' := by decide
      exact hdigit n hlt h
    · have hq : n / 10 ≠ 0 := by omega
      have happ := Nat.toDigits_append_toDigits (b := 10) (n := n / 10) (d := n % 10) (by decide) (by omega)
        (Nat.mod_lt _ (by decide))
      rw [show 10 * (n / 10) + n % 10 = n by omega] at happ
      rw [← happ, List.head?_append]
      have hne := @Nat.toDigits_ne_nil (n / 10) 10
      cases hd : Nat.toDigits 10 (n / 10) with
      | nil => exact absurd hd hne
      | cons c cs =>
        have ih' := ih (n / 10) (by omega) hq
        rw [hd] at ih'
        exact ih'

theorem allDigits_toDigits (n : ℕ) : allDigits (Nat.toDigits 10 n) = true := by
  rw [allDigits, Bool.and_eq_true, List.all_eq_true]
  refine ⟨?_, fun c hc => Nat.isDigit_of_mem_toDigits (by decide) (by decide) hc⟩
  cases hd : Nat.toDigits 10 n with
  | nil => exact absurd hd Nat.toDigits_ne_nil
  | cons c cs => rfl

theorem isNatural_toDigits (n : ℕ) : isNatural (Nat.toDigits 10 n) = true := by
  rw [isNatural, allDigits_toDigits, Bool.true_and]
  by_cases h : n = 0
  · rw [h]
    decide
  · simp [toDigits_head h]

theorem head_toDigits_ne (n : ℕ) : (Nat.toDigits 10 n).head? ≠ some '-' := by
  cases hd : Nat.toDigits 10 n with
  | nil => exact absurd hd Nat.toDigits_ne_nil
  | cons c cs =>
    have hc : c.isDigit = true := Nat.isDigit_of_mem_toDigits (by decide) (by decide) (hd ▸ List.mem_cons_self)
    rintro he
    cases he
    exact absurd hc (by decide)

theorem readInt_intText (n : ℤ) : readInt (intText n) = some n := by
  cases n with
  | ofNat n =>
    have hhead := head_toDigits_ne n
    have hunsigned : unsigned (Nat.toDigits 10 n) = Nat.toDigits 10 n := if_neg hhead
    rw [intText, readInt, hunsigned, if_pos (isNatural_toDigits n), if_neg hhead, Nat.ofDigitChars_ten_toDigits]
    rfl
  | negSucc n =>
    simp only [intText, readInt, unsigned, List.head?_cons, if_true, List.tail_cons, isNatural_toDigits,
      Nat.ofDigitChars_ten_toDigits]
    rfl

theorem isToken_of_isDigit {c : Char} (h : c.isDigit = true) : isToken c = true := by
  simp [isToken, Char.isAlphanum, h]

theorem isToken_intText (n : ℤ) : ∀ c ∈ intText n, isToken c = true := by
  have hdigits : ∀ m, ∀ c ∈ Nat.toDigits 10 m, isToken c = true := fun m c hc =>
    isToken_of_isDigit (Nat.isDigit_of_mem_toDigits (by decide) (by decide) hc)
  intro c hc
  cases n with
  | ofNat n => exact hdigits n c hc
  | negSucc n =>
    rcases List.mem_cons.1 hc with rfl | hc
    · decide
    · exact hdigits _ c hc

theorem readInt_float {t : Text} (h : isFloat t = true) : readInt t = none := by
  rw [isFloat, Bool.and_eq_true, Bool.and_eq_true, List.any_eq_true] at h
  obtain ⟨⟨-, c, hc, hcd⟩, -⟩ := h
  rw [readInt, if_neg]
  intro hnat
  rw [isNatural, Bool.and_eq_true, allDigits, Bool.and_eq_true, List.all_eq_true] at hnat
  -- every character would be a digit or the sign
  have hall : c.isDigit = true ∨ c = '-' := by
    rw [unsigned] at hnat
    split at hnat
    · rename_i hsign
      cases t with
      | nil => cases hc
      | cons d t =>
        rcases List.mem_cons.1 hc with rfl | hc
        · exact Or.inr (Option.some.inj hsign)
        · exact Or.inl (hnat.1.2 c hc)
    · exact Or.inl (hnat.1.2 c hc)
  rcases hall with hd | hd
  · simp [hd] at hcd
  · simp [hd] at hcd

theorem scalar_float (x : FloatText) : scalar x.text = some (.float x) := by
  have hne : ∀ t, isFloat t = false → x.text ≠ t := by
    rintro t ht rfl
    rw [x.isFloat] at ht
    cases ht
  rw [scalar, if_neg (hne _ (by decide)), if_neg (hne _ (by decide)), if_neg (hne _ (by decide)), readInt_float x.isFloat]
  simp only [dif_pos x.isFloat]

theorem scalar_int (n : ℤ) : scalar (intText n) = some (.int n) := by
  have hne : ∀ t, readInt t = none → intText n ≠ t := by
    rintro t ht rfl
    rw [readInt_intText] at ht
    cases ht
  rw [scalar, if_neg (hne _ (by decide)), if_neg (hne _ (by decide)), if_neg (hne _ (by decide)), readInt_intText]

/-! ## Values -/

/-- What a value begins with. -/
def Opens (c : Char) : Prop := isToken c = true ∨ c = '"' ∨ c = '[' ∨ c = '{'

theorem isBlank_of_opens {c : Char} (h : Opens c) : isBlank c = false := by
  rw [← Bool.not_eq_true]
  intro hb
  simp only [isBlank, Bool.or_eq_true, decide_eq_true_eq] at hb
  rcases hb with ((rfl | rfl) | rfl) | rfl <;> revert h <;> unfold Opens <;> decide

theorem skip_of_opens {c : Char} (h : Opens c) (t : Text) : skip (c :: t) = c :: t :=
  List.dropWhile_cons_of_neg (by rw [isBlank_of_opens h]; exact Bool.false_ne_true)

theorem isFloat_token {t : Text} (h : isFloat t = true) : (∃ c s, t = c :: s) ∧ ∀ c ∈ t, isToken c = true := by
  rw [isFloat, Bool.and_eq_true, Bool.and_eq_true, List.any_eq_true, List.all_eq_true] at h
  obtain ⟨⟨htoken, c, hc, -⟩, -⟩ := h
  exact ⟨List.exists_cons_of_ne_nil (List.ne_nil_of_mem hc), htoken⟩

theorem intText_cons (n : ℤ) : ∃ c s, intText n = c :: s := by
  cases n with
  | ofNat n => exact List.exists_cons_of_ne_nil Nat.toDigits_ne_nil
  | negSucc n => exact ⟨_, _, rfl⟩

theorem dumps_opens (v : Value) : ∃ c t, dumps v = c :: t ∧ Opens c := by
  have htoken : ∀ {t : Text}, (∃ c s, t = c :: s) → (∀ c ∈ t, isToken c = true) → ∃ c s, t = c :: s ∧ Opens c := by
    rintro t ⟨c, s, rfl⟩ h
    exact ⟨c, s, rfl, Or.inl (h c List.mem_cons_self)⟩
  cases v with
  | null => exact ⟨'n', _, by rw [dumps]; rfl, Or.inl (by decide)⟩
  | bool b =>
    cases b
    · exact ⟨'f', _, by rw [dumps]; rfl, Or.inl (by decide)⟩
    · exact ⟨'t', _, by rw [dumps]; rfl, Or.inl (by decide)⟩
  | int n =>
    rw [dumps]
    exact htoken (intText_cons n) (isToken_intText n)
  | float x =>
    rw [dumps]
    exact htoken (isFloat_token x.isFloat).1 (isFloat_token x.isFloat).2
  | str s => exact ⟨'"', _, by rw [dumps, quote], Or.inr (Or.inl rfl)⟩
  | list items => exact ⟨'[', _, by rw [dumps], Or.inr (Or.inr (Or.inl rfl))⟩
  | dict items => exact ⟨'{', _, by rw [dumps], Or.inr (Or.inr (Or.inr rfl))⟩

theorem skip_dumps (v : Value) (t : Text) : skip (dumps v ++ t) = dumps v ++ t := by
  obtain ⟨c, s, hv, hc⟩ := dumps_opens v
  rw [hv, List.cons_append, skip_of_opens hc]

theorem stops_moreItems (vs : List Value) (t : Text) : Stops (dumpsMoreItems vs ++ t) := by
  intro c hc
  cases vs <;> rw [dumpsMoreItems] at hc <;> cases hc <;> decide

theorem stops_moreMembers (vs : List (Text × Value)) (t : Text) : Stops (dumpsMoreMembers vs ++ t) := by
  intro c hc
  rcases vs with - | ⟨⟨k, v⟩, vs⟩ <;> rw [dumpsMoreMembers] at hc <;> cases hc <;> decide

/-! What the parser does on the head of a text. -/

theorem parseValue_quote (n : ℕ) (t : Text) :
    parseValue (n + 1) ('"' :: t) = (unescape t).map (fun r => (.str r.1, r.2)) := rfl

theorem parseValue_list_nil (n : ℕ) (t : Text) : parseValue (n + 1) ('[' :: ']' :: t) = some (.list [], t) := rfl

theorem parseValue_dict_nil (n : ℕ) (t : Text) : parseValue (n + 1) ('{' :: '}' :: t) = some (.dict [], t) := rfl

theorem parseValue_list {c : Char} (hc : Opens c) (n : ℕ) (t : Text) :
    parseValue (n + 1) ('[' :: c :: t) = (parseItems n (c :: t)).map (fun r => (.list r.1, r.2)) := by
  have hclose : c ≠ ']' := by
    rintro rfl
    revert hc
    unfold Opens
    decide
  have heq : parseValue (n + 1) ('[' :: c :: t) = match skip (c :: t) with
      | ']' :: rest' => some (.list [], rest')
      | rest' => (parseItems n rest').map (fun r => (.list r.1, r.2)) := rfl
  rw [heq, skip_of_opens hc]
  split
  · rename_i h
    exact absurd (List.cons.inj h).1 hclose
  · rfl

theorem parseValue_dict (n : ℕ) (t : Text) :
    parseValue (n + 1) ('{' :: '"' :: t) = (parseMembers n ('"' :: t)).map (fun r => (.dict r.1, r.2)) := rfl

theorem parseItems_last {n : ℕ} {text t : Text} {v : Value} (h : parseValue n text = some (v, ']' :: t)) :
    parseItems (n + 1) text = some ([v], t) := by
  rw [parseItems, h]
  rfl

theorem parseItems_more {n : ℕ} {text t : Text} {v : Value} (h : parseValue n text = some (v, ',' :: ' ' :: t)) :
    parseItems (n + 1) text = (parseItems n (skip t)).map (fun r => (v :: r.1, r.2)) := by
  rw [parseItems, h]
  rfl

theorem parseMembers_last {n : ℕ} {text rest t : Text} {k : Text} {v : Value}
    (hk : unescape text = some (k, ':' :: ' ' :: rest)) (hv : parseValue n (skip rest) = some (v, '}' :: t)) :
    parseMembers (n + 1) ('"' :: text) = some ([(k, v)], t) := by
  have hskip : skip (' ' :: rest) = skip rest := rfl
  have hcolon : skip (':' :: ' ' :: rest) = ':' :: ' ' :: rest := rfl
  simp only [parseMembers, hk, hcolon, hskip, hv]
  rfl

theorem parseMembers_more {n : ℕ} {text rest t : Text} {k : Text} {v : Value}
    (hk : unescape text = some (k, ':' :: ' ' :: rest)) (hv : parseValue n (skip rest) = some (v, ',' :: ' ' :: t)) :
    parseMembers (n + 1) ('"' :: text) = (parseMembers n (skip t)).map (fun r => ((k, v) :: r.1, r.2)) := by
  have hskip : skip (' ' :: rest) = skip rest := rfl
  have hcolon : skip (':' :: ' ' :: rest) = ':' :: ' ' :: rest := rfl
  simp only [parseMembers, hk, hcolon, hskip, hv]
  rfl

/-- A name or a number is read up to what cannot be part of it. -/
theorem parseValue_scalar {token rest : Text} {v : Value} (n : ℕ) (hne : ∃ c s, token = c :: s)
    (htoken : ∀ c ∈ token, isToken c = true) (hrest : Stops rest) (hv : scalar token = some v) :
    parseValue (n + 1) (token ++ rest) = some (v, rest) := by
  obtain ⟨htake, hdrop⟩ := takeWhile_token htoken hrest
  obtain ⟨c, s, rfl⟩ := hne
  have hc := htoken c List.mem_cons_self
  have hnot : ∀ d, isToken d = false → ∀ t, c :: s ++ rest ≠ d :: t := by
    intro d hd t heq
    rw [(List.cons.inj heq).1, hd] at hc
    cases hc
  rw [parseValue]
  · rw [htake, hdrop, hv]
    rfl
  · exact fun t => hnot _ (by decide) t
  · exact fun t => hnot _ (by decide) t
  · exact fun t => hnot _ (by decide) t

mutual

/-- **What is written is read**, and what follows it is left. -/
theorem parseValue_dumps : ∀ (v : Value) (n : ℕ) (rest : Text), (dumps v).length ≤ n → Stops rest →
    parseValue n (dumps v ++ rest) = some (v, rest)
  | v, 0, rest, hn, _ => by
    obtain ⟨c, t, hv, -⟩ := dumps_opens v
    rw [hv, List.length_cons] at hn
    omega
  | .null, n + 1, rest, _, hrest => by
    rw [dumps]
    exact parseValue_scalar n ⟨_, _, rfl⟩ (List.all_eq_true.1 (by decide)) hrest rfl
  | .bool true, n + 1, rest, _, hrest => by
    rw [dumps, if_pos rfl]
    exact parseValue_scalar n ⟨_, _, rfl⟩ (List.all_eq_true.1 (by decide)) hrest rfl
  | .bool false, n + 1, rest, _, hrest => by
    rw [dumps, if_neg Bool.false_ne_true]
    exact parseValue_scalar n ⟨_, _, rfl⟩ (List.all_eq_true.1 (by decide)) hrest rfl
  | .int k, n + 1, rest, _, hrest => by
    rw [dumps]
    exact parseValue_scalar n (intText_cons k) (isToken_intText k) hrest (scalar_int k)
  | .float x, n + 1, rest, _, hrest => by
    rw [dumps]
    exact parseValue_scalar n (isFloat_token x.isFloat).1 (isFloat_token x.isFloat).2 hrest (scalar_float x)
  | .str s, n + 1, rest, _, _ => by
    rw [dumps, quote, List.cons_append, List.append_assoc, List.singleton_append, parseValue_quote, unescape_quote]
    rfl
  | .list [], n + 1, rest, _, _ => by
    rw [dumps, dumpsItems]
    exact parseValue_list_nil n rest
  | .list (v :: vs), n + 1, rest, hn, _ => by
    rw [dumps, dumpsItems, List.length_cons] at hn
    have hitems := parseItems_dumps v vs n rest hn
    obtain ⟨c, t, hv, hc⟩ := dumps_opens v
    rw [dumps, dumpsItems, List.cons_append]
    rw [hv, List.cons_append, List.cons_append] at hitems ⊢
    rw [parseValue_list hc, hitems]
    rfl
  | .dict [], n + 1, rest, _, _ => by
    rw [dumps, dumpsMembers]
    exact parseValue_dict_nil n rest
  | .dict ((k, v) :: vs), n + 1, rest, hn, _ => by
    rw [dumps, dumpsMembers, List.length_cons] at hn
    have hmembers := parseMembers_dumps k v vs n rest hn
    rw [dumps, dumpsMembers, List.cons_append]
    rw [quote, List.cons_append, List.cons_append] at hmembers ⊢
    rw [parseValue_dict, hmembers]
    rfl

theorem parseItems_dumps : ∀ (v : Value) (vs : List Value) (n : ℕ) (rest : Text),
    (dumps v ++ dumpsMoreItems vs).length + 1 ≤ n + 1 →
      parseItems n (dumps v ++ dumpsMoreItems vs ++ rest) = some (v :: vs, rest)
  | v, _, 0, _, hn => by
    obtain ⟨c, t, hv, -⟩ := dumps_opens v
    rw [hv, List.cons_append, List.length_cons] at hn
    omega
  | v, [], n + 1, rest, hn => by
    rw [List.length_append, dumpsMoreItems, List.length_singleton] at hn
    have hvalue := parseValue_dumps v n (dumpsMoreItems [] ++ rest) (by omega) (stops_moreItems [] rest)
    rw [List.append_assoc]
    rw [dumpsMoreItems] at hvalue ⊢
    exact parseItems_last hvalue
  | v, w :: vs, n + 1, rest, hn => by
    rw [List.length_append, dumpsMoreItems, List.length_cons, List.length_cons] at hn
    have hvalue := parseValue_dumps v n (dumpsMoreItems (w :: vs) ++ rest) (by omega) (stops_moreItems (w :: vs) rest)
    have hmore := parseItems_dumps w vs n rest (by omega)
    rw [List.append_assoc]
    rw [dumpsMoreItems, List.cons_append, List.cons_append, List.append_assoc] at hvalue ⊢
    rw [List.append_assoc] at hmore
    rw [parseItems_more hvalue, skip_dumps, hmore]
    rfl

theorem parseMembers_dumps : ∀ (k : Text) (v : Value) (vs : List (Text × Value)) (n : ℕ) (rest : Text),
    (quote k ++ ':' :: ' ' :: (dumps v ++ dumpsMoreMembers vs)).length + 1 ≤ n + 1 →
      parseMembers n (quote k ++ ':' :: ' ' :: (dumps v ++ dumpsMoreMembers vs) ++ rest) = some ((k, v) :: vs, rest)
  | k, _, _, 0, _, hn => by
    rw [quote, List.cons_append, List.length_cons] at hn
    omega
  | k, v, vs, n + 1, rest, hn => by
    rw [List.length_append, List.length_cons, List.length_cons, List.length_append] at hn
    have hvalue := parseValue_dumps v n (dumpsMoreMembers vs ++ rest) (by omega) (stops_moreMembers vs rest)
    rw [← skip_dumps] at hvalue
    have hquote : quote k ++ ':' :: ' ' :: (dumps v ++ dumpsMoreMembers vs) ++ rest =
        '"' :: (k.flatMap escapeChar ++ '"' :: ':' :: ' ' :: (dumps v ++ (dumpsMoreMembers vs ++ rest))) := by
      simp [quote]
    rw [hquote]
    cases vs with
    | nil =>
      rw [dumpsMoreMembers] at hvalue ⊢
      exact parseMembers_last (unescape_quote k _) hvalue
    | cons kw vs =>
      obtain ⟨k', w⟩ := kw
      rw [dumpsMoreMembers, List.length_cons, List.length_cons] at hn
      have hmore := parseMembers_dumps k' w vs n rest (by omega)
      rw [dumpsMoreMembers, List.cons_append, List.cons_append] at hvalue ⊢
      rw [parseMembers_more (unescape_quote k _) hvalue]
      have hopen : ∀ t, skip (quote k' ++ t) = quote k' ++ t := fun t => rfl
      rw [List.append_assoc] at hmore ⊢
      rw [hopen, hmore]
      rfl

end

/-- **`loads` reads what `dumps` wrote**, with a line break after it. -/
theorem loads_dumps (v : Value) : loads (dumps v ++ ['\n']) = some v := by
  have hskip := skip_dumps v ['\n']
  have hstops : Stops ['\n'] := by
    intro c hc
    cases hc
    decide
  have hparse := parseValue_dumps v ((dumps v ++ ['\n']).length + 1) ['\n'] (by rw [List.length_append]; omega) hstops
  rw [loads, hskip, hparse]
  rfl

/-- The same without the line break. -/
theorem loads_dumps_self (v : Value) : loads (dumps v) = some v := by
  have hskip := skip_dumps v []
  have hparse := parseValue_dumps v ((dumps v).length + 1) [] (Nat.le_succ _) (fun c hc => by cases hc)
  rw [List.append_nil] at hskip hparse
  rw [loads, hskip, hparse]
  rfl

theorem dumpsMoreMembers_concat : ∀ vs : List (Text × Value), ∃ init, dumpsMoreMembers vs = init ++ ['}']
  | [] => ⟨[], by rw [dumpsMoreMembers]; rfl⟩
  | (k, v) :: vs => by
    obtain ⟨init, hinit⟩ := dumpsMoreMembers_concat vs
    exact ⟨',' :: ' ' :: (quote k ++ ':' :: ' ' :: (dumps v ++ init)), by simp [dumpsMoreMembers, hinit]⟩

/-- A dictionary is written between its braces. -/
theorem dumps_dict_braces (vs : List (Text × Value)) : ∃ body, dumps (.dict vs) = '{' :: (body ++ ['}']) := by
  rcases vs with - | ⟨⟨k, v⟩, vs⟩
  · exact ⟨[], by rw [dumps, dumpsMembers]; rfl⟩
  · obtain ⟨init, hinit⟩ := dumpsMoreMembers_concat vs
    exact ⟨quote k ++ ':' :: ' ' :: (dumps v ++ init), by simp [dumps, dumpsMembers, hinit]⟩

/-! ## What is written is one line -/

/-- ASCII without control characters. -/
def Printable (t : Text) : Prop := ∀ c ∈ t, 0x20 ≤ c.toNat ∧ c.toNat ≤ 0x7e

theorem Printable.append {a b : Text} (ha : Printable a) (hb : Printable b) : Printable (a ++ b) := by
  intro c hc
  rcases List.mem_append.1 hc with hc | hc
  · exact ha c hc
  · exact hb c hc

theorem Printable.cons {c : Char} {t : Text} (hc : 0x20 ≤ c.toNat ∧ c.toNat ≤ 0x7e) (ht : Printable t) :
    Printable (c :: t) := by
  intro d hd
  rcases List.mem_cons.1 hd with rfl | hd
  · exact hc
  · exact ht d hd

theorem printable_of_all {t : Text} (h : t.all (fun c => 0x20 ≤ c.toNat && c.toNat ≤ 0x7e) = true) : Printable t := by
  intro c hc
  have hall := List.all_eq_true.1 h c hc
  rw [Bool.and_eq_true, decide_eq_true_eq, decide_eq_true_eq] at hall
  exact hall

theorem printable_nil : Printable [] := fun _ hc => by cases hc

theorem printable_of_isToken {t : Text} (h : ∀ c ∈ t, isToken c = true) : Printable t := by
  intro c hc
  have hcase := h c hc
  simp only [isToken, Bool.or_eq_true, decide_eq_true_eq] at hcase
  rcases hcase with ((halnum | rfl) | rfl) | rfl
  · have hbounds := Text.toNat_of_isAlphanum halnum
    omega
  · decide
  · decide
  · decide

theorem printable_unicodeEscape (n : ℕ) : Printable (unicodeEscape n) := by
  have hdigit : ∀ k, k < 16 → 0x20 ≤ (Nat.digitChar k).toNat ∧ (Nat.digitChar k).toNat ≤ 0x7e := by decide
  have hmod : ∀ k, 0x20 ≤ (Nat.digitChar (k % 16)).toNat ∧ (Nat.digitChar (k % 16)).toNat ≤ 0x7e := fun k =>
    hdigit _ (Nat.mod_lt k (by decide))
  exact Printable.cons (by decide) (Printable.cons (by decide) (Printable.cons (hmod _) (Printable.cons (hmod _)
    (Printable.cons (hmod _) (Printable.cons (hmod _) printable_nil)))))

theorem printable_escapeChar (c : Char) : Printable (escapeChar c) := by
  have hpair : ∀ d : Char, 0x20 ≤ d.toNat ∧ d.toNat ≤ 0x7e → Printable ['\\', d] := fun d hd =>
    Printable.cons (by decide) (Printable.cons hd printable_nil)
  unfold escapeChar
  split_ifs with hq hb hn hr ht hbs hff hp hu
  · exact hpair _ (by decide)
  · exact hpair _ (by decide)
  · exact hpair _ (by decide)
  · exact hpair _ (by decide)
  · exact hpair _ (by decide)
  · exact hpair _ (by decide)
  · exact hpair _ (by decide)
  · exact Printable.cons hp printable_nil
  · exact printable_unicodeEscape _
  · exact (printable_unicodeEscape _).append (printable_unicodeEscape _)

theorem printable_quote (s : Text) : Printable (quote s) := by
  refine Printable.cons (by decide) (Printable.append ?_ (Printable.cons (by decide) printable_nil))
  intro c hc
  obtain ⟨d, -, hd⟩ := List.mem_flatMap.1 hc
  exact printable_escapeChar d c hd

mutual

/-- **What is written is printable ASCII.** -/
theorem printable_dumps : ∀ v, Printable (dumps v)
  | .null => by rw [dumps]; exact printable_of_all (by decide)
  | .bool true => by rw [dumps, if_pos rfl]; exact printable_of_all (by decide)
  | .bool false => by rw [dumps, if_neg Bool.false_ne_true]; exact printable_of_all (by decide)
  | .int n => by rw [dumps]; exact printable_of_isToken (isToken_intText n)
  | .float x => by rw [dumps]; exact printable_of_isToken (isFloat_token x.isFloat).2
  | .str s => by rw [dumps]; exact printable_quote s
  | .list [] => by rw [dumps, dumpsItems]; exact printable_of_all (by decide)
  | .list (v :: vs) => by
    rw [dumps, dumpsItems]
    exact Printable.cons (by decide) ((printable_dumps v).append (printable_dumpsMoreItems vs))
  | .dict [] => by rw [dumps, dumpsMembers]; exact printable_of_all (by decide)
  | .dict ((k, v) :: vs) => by
    rw [dumps, dumpsMembers]
    exact Printable.cons (by decide) ((printable_quote k).append (Printable.cons (by decide)
      (Printable.cons (by decide) ((printable_dumps v).append (printable_dumpsMoreMembers vs)))))

theorem printable_dumpsMoreItems : ∀ vs, Printable (dumpsMoreItems vs)
  | [] => by rw [dumpsMoreItems]; exact printable_of_all (by decide)
  | v :: vs => by
    rw [dumpsMoreItems]
    exact Printable.cons (by decide) (Printable.cons (by decide)
      ((printable_dumps v).append (printable_dumpsMoreItems vs)))

theorem printable_dumpsMoreMembers : ∀ vs, Printable (dumpsMoreMembers vs)
  | [] => by rw [dumpsMoreMembers]; exact printable_of_all (by decide)
  | (k, v) :: vs => by
    rw [dumpsMoreMembers]
    exact Printable.cons (by decide) (Printable.cons (by decide) ((printable_quote k).append (Printable.cons (by decide)
      (Printable.cons (by decide) ((printable_dumps v).append (printable_dumpsMoreMembers vs))))))

end

/-- What is written has no line break in it. -/
theorem not_mem_dumps (v : Value) {c : Char} (hc : c.toNat < 0x20) : c ∉ dumps v := by
  intro hmem
  have hbounds := printable_dumps v c hmem
  omega

end JsonText
end Lib
