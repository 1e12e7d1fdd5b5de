import DevHarness.Ipc.Framing
import Mathlib.Data.List.Forall2
/-!
# FrameFormat — the layout the codecs copy (`ipc/framing.py`, `engine/commands.py`, `broker/protocol.py`)

Three modules frame their JSON the same way, a length of four bytes before the body, each in functions of its own: they
differ in what they dump, in their ceilings and in what they raise.  A `FrameFormat` is one of them.  A stream is the
pieces it arrives in (`arrivals`), cut wherever the network cut it, and whatever comes after them.  Every format is
`Lawful`: frames read back one by one, the one-shot decoder agrees with the reader, and a frame cut short is refused.
-/
namespace DevHarness
namespace Ipc

/-! ## A stream in pieces -/

/-- Data that arrives in these pieces, none of them empty. -/
def arrivals : List (UInt8 × List UInt8) → Socket := List.map (fun piece => .data piece.1 piece.2)

def Ends : Socket → Prop
  | .data _ _ :: _ => False
  | _ => True

theorem bytesOf_arrivals_append : ∀ (pieces : List (UInt8 × List UInt8)) (tail : Socket),
    bytesOf (arrivals pieces ++ tail) = bytesOf (arrivals pieces) ++ bytesOf tail
  | [], _ => rfl
  | (b, bs) :: pieces, tail => by
    have ih := bytesOf_arrivals_append pieces tail
    simp only [arrivals, List.map_cons, List.cons_append, bytesOf, List.append_assoc] at ih ⊢
    rw [ih]

theorem eq_nil_of_bytesOf_arrivals {pieces : List (UInt8 × List UInt8)} (h : bytesOf (arrivals pieces) = []) :
    pieces = [] := by
  cases pieces with
  | nil => rfl
  | cons piece pieces => cases h

theorem pushBack_arrivals (l : List UInt8) (pieces : List (UInt8 × List UInt8)) (tail : Socket) :
    ∃ pieces', pushBack l (arrivals pieces ++ tail) = arrivals pieces' ++ tail ∧
      bytesOf (arrivals pieces') = l ++ bytesOf (arrivals pieces) := by
  cases l with
  | nil => exact ⟨pieces, rfl, rfl⟩
  | cons b bs => exact ⟨(b, bs) :: pieces, rfl, rfl⟩

/-- **The loop takes what it is asked for** off a stream that starts with it, whatever the pieces. -/
theorem readLoop_arrivals (tail : Socket) (rest : List UInt8) : ∀ (rounds : ℕ) (taken chunks : List UInt8)
    (pieces : List (UInt8 × List UInt8)), taken.length ≤ rounds → bytesOf (arrivals pieces) = taken ++ rest →
    ∃ pieces', readLoop rounds taken.length chunks (arrivals pieces ++ tail) =
        (.ok (chunks ++ taken), arrivals pieces' ++ tail) ∧ bytesOf (arrivals pieces') = rest
  | rounds, [], chunks, pieces, _, hbytes => by
    refine ⟨pieces, ?_, hbytes⟩
    cases rounds <;> rw [List.length_nil, readLoop, List.append_nil]
  | 0, b :: taken, _, _, hrounds, _ => by cases hrounds
  | rounds + 1, b :: taken, chunks, [], _, hbytes => by cases hbytes
  | rounds + 1, b :: taken, chunks, (b', bs) :: pieces, hrounds, hbytes => by
    obtain ⟨pieces₁, hpush, hbytes₁⟩ := pushBack_arrivals (bs.drop taken.length) pieces tail
    have hrecv : recv (taken.length + 1) (arrivals ((b', bs) :: pieces) ++ tail) =
        (.ok (b' :: bs.take taken.length), arrivals pieces₁ ++ tail) := by
      rw [← hpush]
      rfl
    obtain ⟨rfl, hsplit⟩ : b' = b ∧ bs ++ bytesOf (arrivals pieces) = taken ++ rest := List.cons.inj hbytes
    -- what the piece gives is the first part of what is asked for
    obtain ⟨hfirst, hothers⟩ : bs.take taken.length = taken.take (bs.take taken.length).length ∧
        bs.drop taken.length ++ bytesOf (arrivals pieces) = taken.drop (bs.take taken.length).length ++ rest := by
      refine List.append_inj ?_ ?_
      · rw [← List.append_assoc, ← List.append_assoc, List.take_append_drop, List.take_append_drop, hsplit]
      · rw [List.length_take, List.length_take]
        omega
    have hleft : taken.length + 1 - (b' :: bs.take taken.length).length =
        (taken.drop (bs.take taken.length).length).length := by
      rw [List.length_cons, List.length_drop]
      omega
    obtain ⟨pieces', hloop, hrest⟩ := readLoop_arrivals tail rest rounds (taken.drop (bs.take taken.length).length)
      (chunks ++ b' :: bs.take taken.length) pieces₁
      (by rw [List.length_cons] at hrounds; rw [List.length_drop]; omega) (hbytes₁.trans hothers)
    refine ⟨pieces', ?_, hrest⟩
    have hjoin : bs.take taken.length ++ taken.drop (bs.take taken.length).length = taken := by
      calc bs.take taken.length ++ taken.drop (bs.take taken.length).length
          = taken.take (bs.take taken.length).length ++ taken.drop (bs.take taken.length).length := by rw [← hfirst]
        _ = taken := List.take_append_drop _ _
    rw [List.length_cons, readLoop, hrecv]
    dsimp only
    rw [hleft, hloop, List.append_assoc, List.cons_append, hjoin]

theorem readExactly_arrivals (taken rest : List UInt8) {pieces : List (UInt8 × List UInt8)} (tail : Socket)
    (hbytes : bytesOf (arrivals pieces) = taken ++ rest) :
    ∃ pieces', readExactly (arrivals pieces ++ tail) taken.length = (.ok taken, arrivals pieces' ++ tail) ∧
      bytesOf (arrivals pieces') = rest := by
  simpa [readExactly] using readLoop_arrivals tail rest taken.length taken [] pieces (le_refl _) hbytes

theorem readLoop_arrivals_short (tail : Socket) : ∀ (rounds n : ℕ) (chunks : List UInt8)
    (pieces : List (UInt8 × List UInt8)), n ≤ rounds → (bytesOf (arrivals pieces)).length < n →
    ∃ rounds' n', readLoop rounds n chunks (arrivals pieces ++ tail) =
      readLoop (rounds' + 1) (n' + 1) (chunks ++ bytesOf (arrivals pieces)) tail
  | _, 0, _, _, _, hlen => by cases hlen
  | 0, n + 1, _, _, hrounds, _ => by cases hrounds
  | rounds + 1, n + 1, chunks, [], _, _ => by
    refine ⟨rounds, n, ?_⟩
    show readLoop (rounds + 1) (n + 1) chunks tail = readLoop (rounds + 1) (n + 1) (chunks ++ []) tail
    rw [List.append_nil]
  | rounds + 1, n + 1, chunks, (b, bs) :: pieces, hrounds, hlen => by
    have hbytes : bytesOf (arrivals ((b, bs) :: pieces)) = b :: bs ++ bytesOf (arrivals pieces) := rfl
    rw [hbytes, List.length_append, List.length_cons] at hlen
    have hrecv : recv (n + 1) (arrivals ((b, bs) :: pieces) ++ tail) = (.ok (b :: bs), arrivals pieces ++ tail) := by
      show (Except.ok (b :: bs.take n), pushBack (bs.drop n) (arrivals pieces ++ tail)) = _
      rw [List.take_of_length_le (by omega), List.drop_eq_nil_of_le (by omega)]
      rfl
    obtain ⟨rounds', n', hloop⟩ := readLoop_arrivals_short tail rounds (n + 1 - (b :: bs).length) (chunks ++ b :: bs) pieces
      (by rw [List.length_cons]; omega) (by rw [List.length_cons]; omega)
    refine ⟨rounds', n', ?_⟩
    rw [readLoop, hrecv]
    dsimp only
    rw [hloop, hbytes, List.append_assoc]

theorem readExactly_short (pieces : List (UInt8 × List UInt8)) {n : ℕ} (hlen : (bytesOf (arrivals pieces)).length < n)
    (tail : Socket) (hends : Ends tail) :
    (∃ r s', readExactly (arrivals pieces ++ tail) n = (.error r, s')) ∨
      readExactly (arrivals pieces ++ tail) n = (.ok (bytesOf (arrivals pieces)), tail) := by
  obtain ⟨rounds', n', hloop⟩ := readLoop_arrivals_short tail n n [] pieces (le_refl n) hlen
  rw [readExactly, hloop, List.nil_append]
  cases tail with
  | nil => exact Or.inl ⟨_, _, rfl⟩
  | cons a tail =>
    cases a with
    | data b bs => exact hends.elim
    | timeout => exact Or.inl ⟨_, _, rfl⟩
    | reset => exact Or.inl ⟨_, _, rfl⟩
    | closed => exact Or.inr rfl

theorem readExactly_closed (pieces : List (UInt8 × List UInt8)) {n : ℕ} (hlen : (bytesOf (arrivals pieces)).length < n)
    (tail : Socket) :
    readExactly (arrivals pieces ++ .closed :: tail) n = (.ok (bytesOf (arrivals pieces)), .closed :: tail) := by
  obtain ⟨rounds', n', hloop⟩ := readLoop_arrivals_short (.closed :: tail) n n [] pieces (le_refl n) hlen
  rw [readExactly, hloop, List.nil_append]
  rfl

/-! ## The layout -/

/-- **A frame format**: what a codec makes of a body, the most a frame of a value may have and a body declare, and what it
raises where. -/
structure FrameFormat (α ρ : Type) where
  dump : α → Except ρ (List UInt8)
  parse : List UInt8 → Except ρ α
  limit : α → ℕ
  ceiling : ℕ
  raised : Raised → ρ
  frameTooLarge : α → ℕ → ρ
  shorterThanPrefix : ρ
  bodyTooLarge : ℕ → ρ
  bodyUnavailable : (length available : ℕ) → ρ
  eofBeforeFrame : ρ
  eofInsidePrefix : ρ
  declaredTooLarge : ℕ → ρ
  eofInsideBody : (got length : ℕ) → ρ
  limit_le : ∀ a, limit a ≤ ceiling
  ceiling_lt : ceiling < 4294967296

namespace FrameFormat

variable {α ρ : Type} (f : FrameFormat α ρ)

def encode (a : α) : Except ρ (List UInt8) :=
  match f.dump a with
  | .error r => .error r
  | .ok body =>
    if 4294967296 ≤ body.length then .error (f.raised .structError)
    else
      let frame := pack body.length ++ body
      if f.limit a < frame.length then .error (f.frameTooLarge a frame.length) else .ok frame

def decodeFrame (data : List UInt8) : Except ρ α :=
  if data.length < prefixLen then .error f.shorterThanPrefix
  else
    let length := unpack (data.take prefixLen)
    if f.ceiling < length then .error (f.bodyTooLarge length)
    else if data.length < prefixLen + length then .error (f.bodyUnavailable length (data.length - prefixLen))
    else f.parse ((data.drop prefixLen).take length)

def readFrame (s : Socket) : Except ρ α × Socket :=
  match readExactly s prefixLen with
  | (.error r, s') => (.error (f.raised r), s')
  | (.ok header, s') =>
    if header.length = 0 then (.error f.eofBeforeFrame, s')
    else if header.length < prefixLen then (.error f.eofInsidePrefix, s')
    else
      let length := unpack header
      if f.ceiling < length then (.error (f.declaredTooLarge length), s')
      else match readExactly s' length with
        | (.error r, s'') => (.error (f.raised r), s'')
        | (.ok body, s'') =>
          if body.length < length then (.error (f.eofInsideBody body.length length), s'') else (f.parse body, s'')

/-- The JSON of a value, if it has one, parses to it again. -/
def RoundTrips (a : α) : Prop := ∀ body, f.dump a = .ok body → f.parse body = .ok a

/-- Reading these values one after the other, each read taking the bytes of its own frame and no more. -/
def Reads : List α → Socket → Socket → Prop
  | [], s, s' => s' = s
  | a :: as, s, s' => ∃ frame s₁, f.encode a = .ok frame ∧ f.readFrame s = (.ok a, s₁) ∧
      bytesOf s = frame ++ bytesOf s₁ ∧ Reads as s₁ s'

/-- **A lawful format**, on every stream and every way it comes in pieces; `json` is what its layer of JSON inverts on. -/
structure Lawful (json : α → Prop) : Prop where
  -- frames come back one by one and in order
  reads : ∀ (as : List α) (frames : List (List UInt8)) (pieces : List (UInt8 × List UInt8)) (tail : Socket),
    (∀ a ∈ as, json a) → List.Forall₂ (fun a frame => f.encode a = .ok frame) as frames →
    bytesOf (arrivals pieces) = frames.flatten → f.Reads as (arrivals pieces ++ tail) tail
  -- on one frame the reader and the decoder agree
  agrees : ∀ (body : List UInt8) (pieces : List (UInt8 × List UInt8)) (tail : Socket), body.length < 4294967296 →
    bytesOf (arrivals pieces) = pack body.length ++ body →
    (f.readFrame (arrivals pieces ++ tail)).1.toOption = (f.decodeFrame (pack body.length ++ body)).toOption
  -- a frame cut short is refused as incomplete
  truncated : ∀ (body part : List UInt8) (pieces : List (UInt8 × List UInt8)) (tail : Socket),
    body.length ≤ f.ceiling → part <+: pack body.length ++ body → part.length < prefixLen + body.length →
    bytesOf (arrivals pieces) = part →
    f.decodeFrame part = .error (if part.length < prefixLen then f.shorterThanPrefix
      else f.bodyUnavailable body.length (part.length - prefixLen)) ∧
    (f.readFrame (arrivals pieces ++ .closed :: tail)).1 = .error (if part = [] then f.eofBeforeFrame
      else if part.length < prefixLen then f.eofInsidePrefix
      else f.eofInsideBody (part.length - prefixLen) body.length)

/-! ## Every format is lawful -/

variable {f}

/-- **A value is encoded exactly when it has a JSON that fits**, and then as that frame. -/
theorem encode_eq_ok_iff {a : α} {frame : List UInt8} : f.encode a = .ok frame ↔
    ∃ body, f.dump a = .ok body ∧ prefixLen + body.length ≤ f.limit a ∧ frame = pack body.length ++ body := by
  have hle := f.limit_le a
  have hlt := f.ceiling_lt
  unfold encode
  cases hdump : f.dump a with
  | error r => simp
  | ok body =>
    simp only [List.length_append, length_pack, Except.ok.injEq, exists_eq_left']
    split
    · exact iff_of_false (fun h => by cases h) (fun h => by omega)
    · split
      · exact iff_of_false (fun h => by cases h) (fun h => by omega)
      · rw [and_iff_right (by omega), Except.ok.injEq, eq_comm]

theorem encode_ok {a : α} {frame : List UInt8} (h : f.encode a = .ok frame) :
    ∃ body, f.dump a = .ok body ∧ frame = pack body.length ++ body ∧ body.length ≤ f.ceiling := by
  obtain ⟨body, hdump, hfits, hframe⟩ := encode_eq_ok_iff.1 h
  have hle := f.limit_le a
  exact ⟨body, hdump, hframe, by omega⟩

theorem decodeFrame_frame {body : List UInt8} (hle : body.length ≤ f.ceiling) :
    f.decodeFrame (pack body.length ++ body) = f.parse body := by
  have htake : (pack body.length ++ body).take prefixLen = pack body.length := List.take_left' rfl
  have hdrop : (pack body.length ++ body).drop prefixLen = body := List.drop_left' rfl
  have hlt := f.ceiling_lt
  unfold decodeFrame
  simp only [htake, hdrop, unpack_pack (show body.length < 4294967296 by omega), List.length_append, length_pack,
    List.take_length]
  rw [if_neg (by omega), if_neg (by omega), if_neg (by omega)]

/-- **Reading a whole frame** parses its body and leaves what follows. -/
theorem readFrame_frame {body : List UInt8} (rest : List UInt8) {pieces : List (UInt8 × List UInt8)}
    (hle : body.length ≤ f.ceiling) (hbytes : bytesOf (arrivals pieces) = pack body.length ++ body ++ rest) (tail : Socket) :
    ∃ pieces', f.readFrame (arrivals pieces ++ tail) = (f.parse body, arrivals pieces' ++ tail) ∧
      bytesOf (arrivals pieces') = rest := by
  rw [List.append_assoc] at hbytes
  obtain ⟨pieces₁, hheader, hbytes₁⟩ := readExactly_arrivals _ _ tail hbytes
  obtain ⟨pieces₂, hbody, hbytes₂⟩ := readExactly_arrivals _ _ tail hbytes₁
  have hlt := f.ceiling_lt
  refine ⟨pieces₂, ?_, hbytes₂⟩
  unfold readFrame
  rw [length_pack] at hheader
  simp only [hheader, length_pack, unpack_pack (show body.length < 4294967296 by omega), hbody]
  rw [if_neg (by decide), if_neg (lt_irrefl _), if_neg (by omega), if_neg (lt_irrefl _)]

theorem reads_frames : ∀ (as : List α) (frames : List (List UInt8)) (pieces : List (UInt8 × List UInt8)) (tail : Socket),
    (∀ a ∈ as, f.RoundTrips a) → List.Forall₂ (fun a frame => f.encode a = .ok frame) as frames →
    bytesOf (arrivals pieces) = frames.flatten → f.Reads as (arrivals pieces ++ tail) tail
  | [], _, pieces, tail, _, .nil, hbytes => by
    rw [eq_nil_of_bytesOf_arrivals hbytes]
    rfl
  | a :: as, frame :: frames, pieces, tail, hjson, .cons hencode hall, hbytes => by
    obtain ⟨body, hdump, hframe, hle⟩ := encode_ok hencode
    rw [List.flatten_cons, hframe] at hbytes
    obtain ⟨pieces', hread, hrest⟩ := readFrame_frame frames.flatten hle hbytes tail
    refine ⟨frame, arrivals pieces' ++ tail, hencode, ?_, ?_, ?_⟩
    · rw [hread, hjson a List.mem_cons_self body hdump]
    · rw [bytesOf_arrivals_append, bytesOf_arrivals_append, hbytes, hrest, hframe, List.append_assoc _ frames.flatten]
    · exact reads_frames as frames pieces' tail (fun b hb => hjson b (List.mem_cons_of_mem _ hb)) hall hrest

theorem agrees_of_lt {body : List UInt8} {pieces : List (UInt8 × List UInt8)} (tail : Socket)
    (hlen : body.length < 4294967296) (hbytes : bytesOf (arrivals pieces) = pack body.length ++ body)
    (hlt : f.ceiling < body.length) :
    f.decodeFrame (pack body.length ++ body) = .error (f.bodyTooLarge body.length) ∧
      (f.readFrame (arrivals pieces ++ tail)).1 = .error (f.declaredTooLarge body.length) := by
  have htake : (pack body.length ++ body).take prefixLen = pack body.length := List.take_left' rfl
  obtain ⟨pieces₁, hheader, -⟩ := readExactly_arrivals _ _ tail hbytes
  rw [length_pack] at hheader
  constructor
  · unfold decodeFrame
    simp only [htake, unpack_pack hlen, List.length_append, length_pack]
    rw [if_neg (by omega), if_pos hlt]
  · unfold readFrame
    simp only [hheader, length_pack, unpack_pack hlen]
    rw [if_neg (by decide), if_neg (lt_irrefl _), if_pos hlt]

theorem agrees_frame (body : List UInt8) (pieces : List (UInt8 × List UInt8)) (tail : Socket)
    (hlen : body.length < 4294967296) (hbytes : bytesOf (arrivals pieces) = pack body.length ++ body) :
    (f.readFrame (arrivals pieces ++ tail)).1.toOption = (f.decodeFrame (pack body.length ++ body)).toOption := by
  rcases Nat.lt_or_ge f.ceiling body.length with hlt | hle
  · obtain ⟨hdecode, hread⟩ := agrees_of_lt tail hlen hbytes hlt
    rw [hdecode, hread]
    rfl
  · obtain ⟨pieces', hread, -⟩ := readFrame_frame [] hle (by rw [hbytes, List.append_nil]) tail
    rw [hread, decodeFrame_frame hle]

/-- **The reader accepts what the decoder accepts**, on any bytes, whatever comes after them that is not data. -/
theorem toOption_readFrame (data : List UInt8) {pieces : List (UInt8 × List UInt8)}
    (hbytes : bytesOf (arrivals pieces) = data) {tail : Socket} (hends : Ends tail) :
    (f.readFrame (arrivals pieces ++ tail)).1.toOption = (f.decodeFrame data).toOption := by
  unfold decodeFrame readFrame
  by_cases hshort : data.length < prefixLen
  · rw [if_pos hshort]
    rcases readExactly_short pieces (by rw [hbytes]; exact hshort) tail hends with ⟨r, s', hread⟩ | hread
    · rw [hread]
      rfl
    · rw [hread, hbytes]
      dsimp only
      rw [if_pos hshort]
      split <;> rfl
  · rw [if_neg hshort]
    have hheaderLen : (data.take prefixLen).length = prefixLen := List.length_take_of_le (Nat.le_of_not_lt hshort)
    obtain ⟨pieces₁, hheader, hbytes₁⟩ := readExactly_arrivals (data.take prefixLen) (data.drop prefixLen) tail
      (by rw [List.take_append_drop]; exact hbytes)
    rw [hheaderLen] at hheader
    simp only [hheader, hheaderLen]
    rw [if_neg (by decide), if_neg (lt_irrefl _)]
    have hrestLen : (data.drop prefixLen).length = data.length - prefixLen := List.length_drop
    by_cases hlarge : f.ceiling < unpack (data.take prefixLen)
    · rw [if_pos hlarge, if_pos hlarge]
      rfl
    rw [if_neg hlarge, if_neg hlarge]
    by_cases hpart : data.length < prefixLen + unpack (data.take prefixLen)
    · rw [if_pos hpart]
      have hbodyShort : (data.drop prefixLen).length < unpack (data.take prefixLen) := by omega
      rcases readExactly_short pieces₁ (by rw [hbytes₁]; exact hbodyShort) tail hends with ⟨r, s', hread⟩ | hread
      · rw [hread]
        rfl
      · rw [hread, hbytes₁]
        dsimp only
        rw [if_pos hbodyShort]
        rfl
    · rw [if_neg hpart]
      have hbodyLen : ((data.drop prefixLen).take (unpack (data.take prefixLen))).length = unpack (data.take prefixLen) :=
        List.length_take_of_le (by omega)
      obtain ⟨pieces₂, hbody, -⟩ := readExactly_arrivals
        ((data.drop prefixLen).take (unpack (data.take prefixLen)))
        ((data.drop prefixLen).drop (unpack (data.take prefixLen))) tail
        (by rw [List.take_append_drop]; exact hbytes₁)
      rw [hbodyLen] at hbody
      rw [hbody]
      dsimp only
      rw [hbodyLen, if_neg (lt_irrefl _)]

theorem truncated_prefix {part : List UInt8} {pieces : List (UInt8 × List UInt8)} (tail : Socket)
    (hshort : part.length < prefixLen) (hbytes : bytesOf (arrivals pieces) = part) :
    f.decodeFrame part = .error f.shorterThanPrefix ∧ (f.readFrame (arrivals pieces ++ .closed :: tail)).1 =
      .error (if part = [] then f.eofBeforeFrame else f.eofInsidePrefix) := by
  have hread := readExactly_closed pieces (by rw [hbytes]; exact hshort) tail
  rw [hbytes] at hread
  refine ⟨by rw [decodeFrame, if_pos hshort], ?_⟩
  unfold readFrame
  simp only [hread]
  by_cases hnil : part = []
  · rw [if_pos (by rw [hnil]; rfl), if_pos hnil]
  · rw [if_neg (fun hlen => hnil (List.eq_nil_of_length_eq_zero hlen)), if_pos hshort, if_neg hnil]

theorem truncated_body {body cut : List UInt8} {pieces : List (UInt8 × List UInt8)} (tail : Socket)
    (hle : body.length ≤ f.ceiling) (hcut : cut.length < body.length)
    (hbytes : bytesOf (arrivals pieces) = pack body.length ++ cut) :
    f.decodeFrame (pack body.length ++ cut) = .error (f.bodyUnavailable body.length cut.length) ∧
      (f.readFrame (arrivals pieces ++ .closed :: tail)).1 = .error (f.eofInsideBody cut.length body.length) := by
  have htake : (pack body.length ++ cut).take prefixLen = pack body.length := List.take_left' rfl
  have hlt := f.ceiling_lt
  have hunpack : unpack (pack body.length) = body.length := unpack_pack (by omega)
  obtain ⟨pieces₁, hheader, hbytes₁⟩ := readExactly_arrivals _ _ (.closed :: tail) hbytes
  have hbody := readExactly_closed pieces₁ (by rw [hbytes₁]; exact hcut) tail
  rw [hbytes₁] at hbody
  rw [length_pack] at hheader
  constructor
  · unfold decodeFrame
    simp only [htake, hunpack, List.length_append, length_pack, Nat.add_sub_cancel_left]
    rw [if_neg (by omega), if_neg (by omega), if_pos (by omega)]
  · unfold readFrame
    simp only [hheader, length_pack, hunpack, hbody]
    rw [if_neg (by decide), if_neg (lt_irrefl _), if_neg (by omega), if_pos hcut]

/-- **Every frame format is lawful**, where its JSON inverts. -/
theorem lawful (f : FrameFormat α ρ) {json : α → Prop} (hjson : ∀ a, json a → f.RoundTrips a) : f.Lawful json := by
  refine ⟨fun as frames pieces tail has => reads_frames as frames pieces tail (fun a ha => hjson a (has a ha)),
    agrees_frame, fun body part pieces tail hle hpart hlen hbytes => ?_⟩
  by_cases hshort : part.length < prefixLen
  · rw [if_pos hshort]
    obtain ⟨hdecode, hread⟩ := truncated_prefix (f := f) tail hshort hbytes
    exact ⟨hdecode, by rw [hread, if_pos hshort]⟩
  · rw [if_neg hshort]
    obtain ⟨cut, rfl⟩ := List.prefix_of_prefix_length_le (List.prefix_append (pack body.length) body) hpart
      (Nat.le_of_not_lt hshort)
    have hcut : cut.length < body.length := by
      rw [List.length_append, length_pack] at hlen
      omega
    obtain ⟨hdecode, hread⟩ := truncated_body (f := f) tail hle hcut hbytes
    have hcutLen : (pack body.length ++ cut).length - prefixLen = cut.length := by
      rw [List.length_append, length_pack, Nat.add_sub_cancel_left]
    rw [hcutLen]
    exact ⟨hdecode, by rw [hread, if_neg (by simp [pack]), if_neg hshort]⟩

end FrameFormat

theorem elim_error_eq_ok_iff {ρ : Type} {json : Option (List UInt8)} {r : ρ} {body : List UInt8} :
    (json.elim (.error r) .ok : Except ρ (List UInt8)) = .ok body ↔ json = some body := by
  cases json <;> simp

/-! ## The formats that raise `ValueError` -/

/-- What making sense of a body raises; all but the last are `ValueError`s. -/
inductive BodyError where
  | jsonDecodeError
  | unicodeDecodeError
  | validationError
  | recursionError
  deriving DecidableEq, Repr

inductive CodecRaised where
  -- what `recv` and `struct` raise
  | stream (r : Raised)
  | valueError (message : String)
  -- a value pydantic has no JSON for; a `ValueError` too
  | serializationError
  | body (e : BodyError)
  deriving DecidableEq, Repr

/-- The format of frames of at most `maxFrame` bytes, by the noun its encoder calls them. -/
def plainFormat {α : Type} (noun : String) (maxFrame : ℕ) (hmax : maxFrame < 4294967296)
    (modelDumpJson : α → Option (List UInt8)) (parse : List UInt8 → Except CodecRaised α) :
    FrameFormat α CodecRaised where
  dump a := (modelDumpJson a).elim (.error .serializationError) .ok
  parse := parse
  limit _ := maxFrame
  ceiling := maxFrame
  raised := .stream
  frameTooLarge _ n := .valueError s!"{noun} frame of {n} bytes exceeds {maxFrame}"
  shorterThanPrefix := .valueError "frame shorter than 4-byte prefix"
  bodyTooLarge length := .valueError s!"frame body of {length} bytes exceeds ceiling"
  bodyUnavailable length available := .valueError s!"declared {length} body bytes but only {available} available"
  eofBeforeFrame := .valueError "EOF before any frame"
  eofInsidePrefix := .valueError "EOF inside the length prefix"
  declaredTooLarge length := .valueError s!"declared body of {length} bytes exceeds ceiling"
  eofInsideBody got length := .valueError s!"EOF inside frame body: {got} of {length} bytes"
  limit_le _ := le_refl _
  ceiling_lt := hmax

end Ipc
end DevHarness
