import Mathlib.Data.Rat.Defs
import Mathlib.Algebra.Order.Field.Rat
import Mathlib.Tactic.Linarith
/-!
# Python — the values a decoded JSON document holds, and their conversions

A float is an exact rational, an infinity or not-a-number: comparisons and special values are Python's, rounding is
idealised away.  `Builtins` is the part of the standard library the conversions rest on that works on text (`str` of a
value, `float` and `int` of a string); every law below holds for whatever these are.
-/
namespace Lib

/-- An `int` that is not below one, as a count. -/
theorem one_le_toNat {n : ℤ} (h : ¬n < 1) : 1 ≤ n.toNat := by omega

/-- A Python float without rounding. -/
inductive PyFloat where
  | fin (q : ℚ)
  | inf
  | negInf
  | nan
  deriving DecidableEq

namespace PyFloat

def lt : PyFloat → PyFloat → Bool
  | .nan, _ => false
  | _, .nan => false
  | .fin a, .fin b => decide (a < b)
  | .negInf, .negInf => false
  | .negInf, _ => true
  | .fin _, .inf => true
  | .fin _, .negInf => false
  | .inf, _ => false

def le : PyFloat → PyFloat → Bool
  | .nan, _ => false
  | _, .nan => false
  | .fin a, .fin b => decide (a ≤ b)
  | .negInf, _ => true
  | _, .inf => true
  | .fin _, .negInf => false
  | .inf, _ => false

def sub : PyFloat → PyFloat → PyFloat
  | .nan, _ => .nan
  | _, .nan => .nan
  | .fin a, .fin b => .fin (a - b)
  | .fin _, .inf => .negInf
  | .fin _, .negInf => .inf
  | .inf, .inf => .nan
  | .inf, _ => .inf
  | .negInf, .negInf => .nan
  | .negInf, _ => .negInf

/-- Python's `max(a, b)`: `a` unless `b` is greater. -/
def max (a b : PyFloat) : PyFloat := if a.lt b then b else a

def isPos (x : PyFloat) : Bool := (PyFloat.fin 0).lt x

def isNonPos (x : PyFloat) : Bool := x.le (.fin 0)

@[simp] theorem isPos_fin (q : ℚ) : (PyFloat.fin q).isPos = decide (0 < q) := rfl

@[simp] theorem isNonPos_fin (q : ℚ) : (PyFloat.fin q).isNonPos = decide (q ≤ 0) := rfl

theorem isPos_max_zero (x : PyFloat) : ((PyFloat.fin 0).max x).isPos = x.isPos := by
  unfold PyFloat.max
  split
  · rfl
  · rename_i h
    have : x.isPos = false := by simpa [PyFloat.isPos] using h
    rw [this]
    rfl

theorem max_zero_sub_isPos {t a : PyFloat} (h : ((PyFloat.fin 0).max (t.sub a)).isPos = true) :
    (PyFloat.fin 0).max (t.sub a) = t.sub a := by
  unfold max at h ⊢
  split
  · rfl
  · rename_i hlt
    rw [if_neg hlt] at h
    simp at h

end PyFloat

/-- A decoded JSON value.  Arrays and objects are only ever read through `str`. -/
inductive Json where
  | null
  | bool (b : Bool)
  | int (n : ℤ)
  | float (x : PyFloat)
  | str (s : String)
  | container (repr : String)
  deriving DecidableEq

/-- `str.isspace` of one character. -/
def isSpace (c : Char) : Bool :=
  [0x20, 0x85, 0xA0, 0x1680, 0x2028, 0x2029, 0x202F, 0x205F, 0x3000].contains c.toNat ||
    decide (0x09 ≤ c.toNat ∧ c.toNat ≤ 0x0D) || decide (0x1C ≤ c.toNat ∧ c.toNat ≤ 0x1F) ||
    decide (0x2000 ≤ c.toNat ∧ c.toNat ≤ 0x200A)

/-- `str.strip()`. -/
def strip (s : String) : String :=
  String.ofList ((s.toList.dropWhile isSpace).reverse.dropWhile isSpace).reverse

/-- `s.split(sep)[0]`, for a separator of one character. -/
def firstField (sep : Char) (s : String) : String := String.ofList (s.toList.takeWhile (· ≠ sep))

/-- The newlines of a text read in text mode: `\r\n` and `\r` become `\n`. -/
def translateNewlines : List Char → List Char
  | [] => []
  | '\r' :: '\n' :: cs => '\n' :: translateNewlines cs
  | '\r' :: cs => '\n' :: translateNewlines cs
  | c :: cs => c :: translateNewlines cs

theorem translateNewlines_of_notMem : ∀ {cs : List Char}, '\r' ∉ cs → translateNewlines cs = cs
  | [], _ => rfl
  | c :: cs, h => by
    have hc : c ≠ '\r' := fun heq => h (heq ▸ List.mem_cons_self)
    have hcs := translateNewlines_of_notMem (fun hmem => h (List.mem_cons_of_mem c hmem))
    rw [translateNewlines]
    · rw [hcs]
    · rintro ds rfl -
      exact hc rfl
    · rintro rfl
      exact hc rfl

/-- What `subprocess.run(text=True)` makes of an output. -/
def universalNewlines (s : String) : String := String.ofList (translateNewlines s.toList)

theorem universalNewlines_eq_self {s : String} (h : '\r' ∉ s.toList) : universalNewlines s = s := by
  rw [universalNewlines, translateNewlines_of_notMem h, String.ofList_toList]

theorem universalNewlines_eq_empty_iff {s : String} : universalNewlines s = "" ↔ s = "" := by
  have hnil : ∀ cs : List Char, translateNewlines cs = [] ↔ cs = [] := by
    intro cs
    fun_cases translateNewlines cs <;> simp
  have hempty : s = "" ↔ s.toList = [] := String.toList_inj.symm
  rw [universalNewlines, ← String.toList_inj, String.toList_ofList, hempty]
  exact hnil s.toList

inductive PyExc where
  | keyError
  | valueError
  | typeError
  | overflowError
  deriving DecidableEq

/-- The floats of an interpreter: CPython's, or exact ones, which no int overflows. -/
inductive Floats where
  | binary64
  | exact
  deriving DecidableEq

structure Builtins where
  str : Json → String
  floatOfStr : String → Option PyFloat
  intOfStr : String → Option ℤ
  floats : Floats := .binary64
  str_str : ∀ s, str (.str s) = s

/-- The least magnitude an int may not have for `float(int)`. -/
def floatLimit : ℤ := 2 ^ 1024 - 2 ^ 970

namespace Builtins

variable (py : Builtins)

/-- The int is too large for a float. -/
def Overflows (n : ℤ) : Prop := py.floats = .binary64 ∧ floatLimit ≤ |n|

instance (n : ℤ) : Decidable (py.Overflows n) := inferInstanceAs (Decidable (_ ∧ _))

theorem not_overflows_of_exact {py : Builtins} (h : py.floats = .exact) (n : ℤ) : ¬ py.Overflows n := by
  rintro ⟨hb, -⟩
  rw [h] at hb
  cases hb

/-- `n * x` of an int and a float, the product taken without rounding. -/
def mul (n : ℤ) (x : ℚ) : Except PyExc ℚ := if py.Overflows n then .error .overflowError else .ok (n * x)

def float : Json → Except PyExc PyFloat
  | .null => .error .typeError
  | .bool b => .ok (.fin (if b then 1 else 0))
  | .int n => if py.Overflows n then .error .overflowError else .ok (.fin n)
  | .float x => .ok x
  | .str s => match py.floatOfStr s with
    | some x => .ok x
    | none => .error .valueError
  | .container _ => .error .typeError

def int : Json → Except PyExc ℤ
  | .null => .error .typeError
  | .bool b => .ok (if b then 1 else 0)
  | .int n => .ok n
  | .float (.fin q) => .ok (q.num.tdiv q.den)
  | .float .nan => .error .valueError
  | .float _ => .error .overflowError
  | .str s => match py.intOfStr s with
    | some n => .ok n
    | none => .error .valueError
  | .container _ => .error .typeError

/-- **`float(x)` overflows on integers only**, and exactly on those too large for a float. -/
theorem float_eq_overflow_iff (j : Json) :
    py.float j = .error .overflowError ↔ ∃ n, j = .int n ∧ py.Overflows n := by
  cases j with
  | int n =>
    simp only [float, Json.int.injEq, exists_eq_left']
    split <;> simp_all
  | str s =>
    simp only [float]
    cases py.floatOfStr s <;> simp
  | null => simp [float]
  | bool b => simp [float]
  | float x => simp [float]
  | container r => simp [float]

/-- Text conversions for decimal integers, enough to run the model; the floats are CPython's. -/
def decimal : Builtins where
  str
    | .null => "None"
    | .bool b => if b then "True" else "False"
    | .int n => toString n
    | .float _ => "float"
    | .str s => s
    | .container r => r
  floatOfStr s := s.toInt?.map (fun n => .fin n)
  intOfStr s := s.toInt?
  str_str _ := rfl

end Builtins
end Lib
