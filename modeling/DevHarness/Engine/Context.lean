import DevHarness.Lib.Text
import DevHarness.Lib.Rounding
import DevHarness.Lib.Python
/-!
# Context — trace windows and prompt budgets (`engine/context.py`, `providers/tokenizer.py`)

A message costs two tokens however short it is, so a prompt is clipped into its budget exactly when the budget has two
tokens for each message.  A window with no tail is cut at `lines[-0:]`, which is every line.  The products with the margin
are exact here; on doubles they come out the same for texts below 2 ^ 42 characters (`estimateTokens_eq_float`).
-/
namespace DevHarness
namespace Engine

open Lib (Text PyExc Rounding)
open Lib.Text (splitlines join sliceFrom Unbroken)

/-! ## `estimate_tokens` -/

def charsPerToken : ℕ := 4

/-- `math.ceil(n / d)` -/
def ceilDiv (n d : ℕ) : ℕ := (n + d - 1) / d

/-- The tokens of a text before the margin. -/
def rawTokens (text : Text) : ℕ := max 1 (ceilDiv text.length charsPerToken)

/-- `estimate_tokens`, with `1 + MARGIN` as 23/20. -/
def estimateTokens (text : Text) : ℕ := max 1 (ceilDiv (rawTokens text * 23) 20)

/-! ## `cap_trace` -/

def marker (elided : ℕ) : Text := "... [".toList ++ (toString elided).toList ++ " lines elided] ...".toList

def capTrace (text : Text) (head tail : ℤ) : Except PyExc Text :=
  if head < 0 ∨ tail < 0 then .error .valueError
  else
    let lines := splitlines text
    if lines.length ≤ head + tail then .ok text
    else
      let elided := (lines.length - head - tail).toNat
      .ok (join ['\n'] (lines.take head.toNat ++ [marker elided] ++ sliceFrom lines (-tail)))

/-! ## `build_prompt` -/

structure ModelEntry where
  contextWindow : ℤ
  maxOutput : ℤ
  deriving DecidableEq

structure Message where
  role : Text
  content : Text
  name : Option Text
  deriving DecidableEq

def promptBudget (entry : ModelEntry) : ℤ := entry.contextWindow - entry.maxOutput

def countMessages (messages : List Message) : ℕ := (messages.map (fun m => estimateTokens m.content)).sum

/-- `_clip`; `int(allowance / (1 + MARGIN))` is the floor of 20/23 of the allowance. -/
def clip (content : Text) (allowance : ℤ) : Text :=
  if allowance ≤ 0 then []
  else if estimateTokens content ≤ allowance then content
  else content.take ((allowance * 20 / 23).toNat * charsPerToken)

/-- The end of `build_prompt`: the messages as they are when they fit, each clipped to an equal share when not. -/
def fitMessages (prepared : List Message) (entry : ModelEntry) : List Message :=
  let budget := promptBudget entry
  if countMessages prepared ≤ budget then prepared
  else
    let share := max 1 (budget / max 1 prepared.length)
    prepared.map (fun m => { m with content := clip m.content share })

def buildPrompt (messages : List Message) (entry : ModelEntry) (trace : Option Text) (head tail : ℤ) :
    Except PyExc (List Message) :=
  match trace with
  | none => .ok (fitMessages messages entry)
  | some t => match capTrace t head tail with
    | .error e => .error e
    | .ok capped => .ok (fitMessages (messages ++ [⟨"user".toList, capped, none⟩]) entry)

/-! ## The margin on doubles -/

/-- The double nearest to 1.15, `1 + MARGIN`. -/
def marginDouble : ℚ := 2589569785738035 / 2251799813685248

theorem ceilDiv_spec (n : ℕ) {d : ℕ} (hd : 0 < d) : n ≤ ceilDiv n d * d ∧ ceilDiv n d * d < n + d := by
  have h1 := Nat.div_add_mod (n + d - 1) d
  have h2 := Nat.mod_lt (n + d - 1) hd
  unfold ceilDiv
  rw [Nat.mul_comm] at h1
  omega

theorem one_le_rawTokens (text : Text) : 1 ≤ rawTokens text := le_max_left _ _

/-- **The estimate is what doubles compute**, for any text that can be held. -/
theorem estimateTokens_eq_float {fl : ℚ → ℚ} (hfl : Rounding fl) {text : Text} (hlen : text.length ≤ 2 ^ 42) :
    (estimateTokens text : ℤ) = max 1 ⌈fl (rawTokens text * marginDouble)⌉ := by
  have hraw : rawTokens text ≤ 2 ^ 40 := by
    have := (ceilDiv_spec text.length (d := charsPerToken) (by decide)).2
    unfold rawTokens charsPerToken at *
    omega
  have hone := one_le_rawTokens text
  obtain ⟨hup, hlow⟩ := ceilDiv_spec (rawTokens text * 23) (d := 20) (by decide)
  unfold estimateTokens
  generalize rawTokens text = raw at *
  generalize hm : ceilDiv (raw * 23) 20 = m at *
  have hup' : (raw : ℚ) * 23 ≤ m * 20 := by exact_mod_cast hup
  have hlow' : (m : ℚ) * 20 + 1 ≤ raw * 23 + 20 := by exact_mod_cast hlow
  have hraw' : (raw : ℚ) ≤ 2 ^ 40 := by exact_mod_cast hraw
  have hone' : (1 : ℚ) ≤ raw := by exact_mod_cast hone
  have hceil : ⌈fl (raw * marginDouble)⌉ = m := by
    refine hfl.ceil_eq (by omega) ?_ ?_ ?_
    · unfold marginDouble
      linarith
    · unfold marginDouble
      linarith
    · unfold marginDouble
      linarith
  rw [hceil]
  push_cast
  rfl

/-- **The clip length is what doubles compute**, for any allowance a budget leaves. -/
theorem clip_eq_float {fl : ℚ → ℚ} (hfl : Rounding fl) {allowance : ℕ} (hpos : 1 ≤ allowance) (hle : allowance ≤ 2 ^ 40) :
    ⌊fl (allowance / marginDouble)⌋ = (allowance : ℤ) * 20 / 23 := by
  have hdiv := Nat.div_add_mod (allowance * 20) 23
  have hmod := Nat.mod_lt (allowance * 20) (show 0 < 23 by decide)
  have hcast : (allowance : ℤ) * 20 / 23 = ((allowance * 20 / 23 : ℕ) : ℤ) := by push_cast; rfl
  rw [hcast]
  generalize hn : allowance * 20 / 23 = n at *
  have hlow : (n : ℚ) * 23 ≤ allowance * 20 := by
    have : n * 23 ≤ allowance * 20 := by omega
    exact_mod_cast this
  have hup : (allowance : ℚ) * 20 ≤ n * 23 + 22 := by
    have : allowance * 20 ≤ n * 23 + 22 := by omega
    exact_mod_cast this
  have hpos' : (1 : ℚ) ≤ allowance := by exact_mod_cast hpos
  have hle' : (allowance : ℚ) ≤ 2 ^ 40 := by exact_mod_cast hle
  refine hfl.floor_eq (by omega) ?_ ?_ ?_
  · unfold marginDouble
    linarith
  · unfold marginDouble
    linarith
  · unfold marginDouble
    linarith

/-! ## Windows -/

theorem unbroken_marker (elided : ℕ) : Unbroken (marker elided) := by
  have hdigits : Unbroken (toString elided).toList := by
    intro c hc
    have hd : c.isDigit = true := by
      have hrepr : (toString elided).toList = Nat.toDigits 10 elided := String.toList_ofList
      rw [hrepr] at hc
      exact Nat.isDigit_of_mem_toDigits (by decide) (by decide) hc
    simp only [Char.isDigit, ge_iff_le, Bool.and_eq_true, decide_eq_true_eq, UInt32.le_iff_toNat_le] at hd
    have hlow : 48 ≤ c.toNat := hd.1
    have hhigh : c.toNat ≤ 57 := hd.2
    simp only [Lib.Text.isLineBreak, Bool.or_eq_false_iff, Bool.and_eq_false_iff, decide_eq_false_iff_not]
    omega
  have hopen : Unbroken "... [".toList := by decide
  have hclose : Unbroken " lines elided] ...".toList := by decide
  exact (hopen.append hdigits).append hclose

theorem capTrace_of_le {text : Text} {head tail : ℕ} (h : (splitlines text).length ≤ head + tail) :
    capTrace text head tail = .ok text := by
  unfold capTrace
  rw [if_neg (by omega)]
  dsimp only
  rw [if_pos (by omega)]

theorem capTrace_of_lt {text : Text} {head tail : ℕ} (h : head + tail < (splitlines text).length) :
    capTrace text head tail = .ok (join ['\n'] ((splitlines text).take head ++
      [marker ((splitlines text).length - head - tail)] ++ sliceFrom (splitlines text) (-(tail : ℤ)))) := by
  have helided : (((splitlines text).length : ℤ) - head - tail).toNat = (splitlines text).length - head - tail := by omega
  unfold capTrace
  rw [if_neg (by omega)]
  dsimp only
  rw [if_neg (by omega), helided]
  rfl

theorem capTrace_isOk (text : Text) (head tail : ℕ) : ∃ capped, capTrace text head tail = .ok capped := by
  rcases Nat.lt_or_ge (head + tail) (splitlines text).length with hlong | hshort
  · exact ⟨_, capTrace_of_lt hlong⟩
  · exact ⟨_, capTrace_of_le hshort⟩

/-- **A window**: the text itself when it is short enough, and else its first lines, a marker that counts what is left
out, and its last lines; never more lines than these. -/
structure Windowed (text : Text) (head tail : ℕ) (result : Text) : Prop where
  short : (splitlines text).length ≤ head + tail → result = text
  long : head + tail < (splitlines text).length → result = join ['\n'] ((splitlines text).take head ++
    [marker ((splitlines text).length - head - tail)] ++ (splitlines text).drop ((splitlines text).length - tail))
  lines_le : (splitlines result).length ≤ head + tail + 1

theorem length_join_append_lt {xs ys : List Text} (hx : xs ≠ []) (hy : ys ≠ []) :
    (join ['\n'] xs).length < (join ['\n'] (xs ++ ys)).length := by
  induction xs with
  | nil => exact absurd rfl hx
  | cons x xs ih =>
    cases xs with
    | nil =>
      have hj : join ['\n'] ([x] ++ ys) = x ++ (['\n'] ++ join ['\n'] ys) := by
        rw [List.singleton_append, join, List.intercalate_cons_of_ne_nil hy, List.append_assoc]
        rfl
      have hx1 : join ['\n'] [x] = x := List.intercalate_singleton
      rw [hj, hx1, List.length_append, List.length_append, List.length_singleton]
      omega
    | cons x' xs =>
      have hl : join ['\n'] (x :: x' :: xs) = x ++ (['\n'] ++ join ['\n'] (x' :: xs)) := by
        rw [join, List.intercalate_cons_cons, List.append_assoc]
        rfl
      have hr : join ['\n'] (x :: x' :: xs ++ ys) = x ++ (['\n'] ++ join ['\n'] (x' :: xs ++ ys)) := by
        rw [List.cons_append, List.cons_append, join, List.intercalate_cons_cons, List.append_assoc]
        rfl
      have hlt := ih (by simp)
      rw [hl, hr]
      simp only [List.length_append]
      omega

/-- A head and a tail joined around a marker have the lines they were joined from. -/
theorem length_splitlines_window_le (lines : List Text) (hl : ∀ l ∈ lines, Unbroken l) (head tail elided : ℕ) :
    (splitlines (join ['\n'] (lines.take head ++ [marker elided] ++ lines.drop (lines.length - tail)))).length ≤
      head + tail + 1 := by
  refine le_trans (Lib.Text.length_splitlines_join_le _ ?_) ?_
  · intro l hmem
    rw [List.mem_append, List.mem_append, List.mem_singleton] at hmem
    rcases hmem with (hmem | rfl) | hmem
    · exact hl l (List.mem_of_mem_take hmem)
    · exact unbroken_marker _
    · exact hl l (List.mem_of_mem_drop hmem)
  · rw [List.length_append, List.length_append, List.length_take, List.length_drop, List.length_singleton]
    omega

/-- With no tail the whole text comes after the marker, and nothing was to come. -/
theorem Windowed.length_le_head {text result : Text} {head : ℕ} (h : Windowed text head 0 result)
    (hcap : capTrace text head 0 = .ok result) : (splitlines text).length ≤ head := by
  by_contra hcond
  have hlt : head + 0 < (splitlines text).length := by omega
  have hlong := h.long hlt
  have hslice : sliceFrom (splitlines text) (-((0 : ℕ) : ℤ)) = splitlines text := rfl
  rw [Except.ok.inj (hcap.symm.trans (capTrace_of_lt hlt)), hslice, Nat.sub_zero, Nat.sub_zero, List.drop_length,
    List.append_nil] at hlong
  have hne : splitlines text ≠ [] := List.length_pos_iff.1 (by omega)
  have hhead : (splitlines text).take head ++ [marker ((splitlines text).length - head)] ≠ [] := by simp
  have hlonger := length_join_append_lt hhead hne
  rw [hlong] at hlonger
  exact lt_irrefl _ hlonger

/-- **The window is as described exactly when it has a tail, or the text nothing after its head.** -/
theorem capTrace_windowed_iff (text : Text) (head tail : ℕ) : ∃ result, capTrace text head tail = .ok result ∧
    (Windowed text head tail result ↔ 1 ≤ tail ∨ (splitlines text).length ≤ head) := by
  obtain ⟨result, hcap⟩ := capTrace_isOk text head tail
  refine ⟨result, hcap, fun h => ?_, fun hcond => ?_⟩
  · cases tail with
    | zero => exact Or.inr (h.length_le_head hcap)
    | succ tail => exact Or.inl (Nat.succ_pos tail)
  · rcases Nat.lt_or_ge (head + tail) (splitlines text).length with hlong | hshort
    · have htail : 0 < tail := by omega
      have hres := Except.ok.inj (hcap.symm.trans (capTrace_of_lt hlong))
      rw [Lib.Text.sliceFrom_neg _ htail] at hres
      refine ⟨fun h => by omega, fun _ => hres, ?_⟩
      rw [hres]
      exact length_splitlines_window_le _ (fun l hl => Lib.Text.unbroken_of_mem_splitlines hl) head tail _
    · have hres := Except.ok.inj (hcap.symm.trans (capTrace_of_le hshort))
      refine ⟨fun _ => hres, fun h => by omega, ?_⟩
      rw [hres]
      omega

/-- **Two lines and no tail**: both are given back, after the marker that says one was left out. -/
theorem capTrace_no_tail : ∃ result, capTrace ['a', '\n', 'b'] 1 0 = .ok result ∧
    (splitlines result).length = 4 ∧ ¬ Windowed ['a', '\n', 'b'] 1 0 result :=
  ⟨_, rfl, by decide +kernel, fun h => absurd h.lines_le (by decide +kernel)⟩

/-! ## Budgets -/

/-- Every message costs two tokens, the empty one too. -/
theorem two_le_estimateTokens (text : Text) : 2 ≤ estimateTokens text := by
  have hone := one_le_rawTokens text
  have hup := (ceilDiv_spec (rawTokens text * 23) (d := 20) (by decide)).1
  unfold estimateTokens
  omega

theorem estimateTokens_le_of_length {text : Text} {n : ℕ} (hn : 1 ≤ n) (h : text.length ≤ n * charsPerToken) :
    estimateTokens text * 20 < n * 23 + 20 := by
  have hraw : rawTokens text ≤ n := by
    have hlow := (ceilDiv_spec text.length (d := charsPerToken) (by decide)).2
    unfold rawTokens charsPerToken at *
    omega
  have hlow := (ceilDiv_spec (rawTokens text * 23) (d := 20) (by decide)).2
  unfold estimateTokens
  omega

/-- **A clipped message costs no more than its share**, from two tokens on. -/
theorem estimateTokens_clip_le (content : Text) {allowance : ℤ} (h : 2 ≤ allowance) :
    (estimateTokens (clip content allowance) : ℤ) ≤ allowance := by
  unfold clip
  rw [if_neg (by omega)]
  split
  · assumption
  · have hn : 1 ≤ (allowance * 20 / 23).toNat := by omega
    have hlen : (content.take ((allowance * 20 / 23).toNat * charsPerToken)).length ≤
        (allowance * 20 / 23).toNat * charsPerToken := List.length_take_le _ _
    have hest := estimateTokens_le_of_length hn hlen
    omega

theorem two_mul_length_le (messages : List Message) : 2 * messages.length ≤ countMessages messages := by
  induction messages with
  | nil => exact le_refl _
  | cons m ms ih =>
    have hm := two_le_estimateTokens m.content
    simp only [countMessages, List.map_cons, List.sum_cons, List.length_cons] at ih ⊢
    omega

theorem countMessages_le {k : ℤ} : ∀ (messages : List Message), (∀ m ∈ messages, (estimateTokens m.content : ℤ) ≤ k) →
    (countMessages messages : ℤ) ≤ messages.length * k
  | [], _ => by simp [countMessages]
  | m :: ms, h => by
    have ih := countMessages_le ms (fun x hx => h x (List.mem_cons_of_mem _ hx))
    have hm := h m List.mem_cons_self
    have hsum : (countMessages (m :: ms) : ℤ) = estimateTokens m.content + countMessages ms := by
      simp [countMessages]
    have hlen : ((m :: ms).length : ℤ) * k = k + ms.length * k := by
      rw [List.length_cons]
      push_cast
      rw [add_mul, one_mul, add_comm]
    rw [hsum, hlen]
    omega

theorem length_fitMessages (prepared : List Message) (entry : ModelEntry) :
    (fitMessages prepared entry).length = prepared.length := by
  unfold fitMessages
  dsimp only
  split
  · rfl
  · exact List.length_map _

/-- **Clipping fits the budget exactly when it has two tokens a message.** -/
theorem fitMessages_fits_iff (prepared : List Message) (entry : ModelEntry) :
    (countMessages (fitMessages prepared entry) : ℤ) ≤ promptBudget entry ↔
      2 * (prepared.length : ℤ) ≤ promptBudget entry := by
  constructor
  · intro h
    have hlow := two_mul_length_le (fitMessages prepared entry)
    rw [length_fitMessages] at hlow
    omega
  · intro h
    unfold fitMessages
    dsimp only
    split
    · assumption
    · rename_i hover
      -- there is a message, and the share of each is at least two
      have hlen : 1 ≤ prepared.length := by
        rw [Nat.one_le_iff_ne_zero]
        intro h0
        rw [List.length_eq_zero_iff] at h0
        subst h0
        exact hover (by simpa [countMessages] using h)
      have hmax : max 1 prepared.length = prepared.length := max_eq_right hlen
      have hpos : (0 : ℤ) < prepared.length := by exact_mod_cast hlen
      have hshare : 2 ≤ promptBudget entry / prepared.length := (Int.le_ediv_iff_mul_le hpos).2 h
      rw [hmax, max_eq_right (show (1 : ℤ) ≤ promptBudget entry / prepared.length by omega)]
      have hle := countMessages_le (k := promptBudget entry / prepared.length)
        (prepared.map (fun m => { m with content := clip m.content (promptBudget entry / prepared.length) }))
        (fun m hm => by
          obtain ⟨x, -, rfl⟩ := List.mem_map.1 hm
          exact estimateTokens_clip_le x.content hshare)
      rw [List.length_map] at hle
      exact le_trans hle (Int.mul_ediv_self_le (by omega))

/-- **A prompt fits its budget exactly when the budget has two tokens for each message**, the trace counted as one. -/
theorem buildPrompt_fits_iff (messages : List Message) (entry : ModelEntry) (trace : Option Text) (head tail : ℕ) :
    ∃ built, buildPrompt messages entry trace head tail = .ok built ∧
      ((countMessages built : ℤ) ≤ entry.contextWindow - entry.maxOutput ↔
        2 * ((messages.length : ℤ) + (if trace.isSome then 1 else 0)) ≤ entry.contextWindow - entry.maxOutput) := by
  cases trace with
  | none =>
    refine ⟨_, rfl, ?_⟩
    have hfit := fitMessages_fits_iff messages entry
    simpa [promptBudget] using hfit
  | some t =>
    obtain ⟨capped, hcap⟩ := capTrace_isOk t head tail
    refine ⟨fitMessages (messages ++ [⟨"user".toList, capped, none⟩]) entry, by rw [buildPrompt, hcap], ?_⟩
    have hfit := fitMessages_fits_iff (messages ++ [⟨"user".toList, capped, none⟩]) entry
    simpa [promptBudget] using hfit

/-- **Two short messages in a budget of two**: each is clipped to nothing and still costs two. -/
theorem buildPrompt_exceeds_budget : ∃ built,
    buildPrompt [⟨['s'], ['h', 'i'], none⟩, ⟨['u'], ['g', 'o'], none⟩] ⟨4, 2⟩ none 30 20 = .ok built ∧
      (2 : ℤ) < 4 ∧ ¬ (countMessages built : ℤ) ≤ 4 - 2 :=
  ⟨[⟨['s'], [], none⟩, ⟨['u'], [], none⟩], by decide +kernel, by decide, by decide +kernel⟩

end Engine
end DevHarness
