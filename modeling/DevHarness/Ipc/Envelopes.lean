import DevHarness.Ipc.FrameFormat
/-!
# Envelopes — what the decoders let through (`ipc/framing.py`)

The functions of `framing.py` are a frame format (`encode_eq`, `decodeFrame_eq`, `readFrame_eq`).  The encoder holds a
frame to the limit of its type; the decoders look at the body's length alone and against the ceiling of all types, so
they pass frames that no encoder makes: the ones of the sizes in `Oversized` (`withinLimit_iff`).
-/
namespace DevHarness
namespace Ipc

variable {π : Type} (codec : EnvelopeCodec π)

theorem maxFrameFor_le (t : EventType) : maxFrameFor t ≤ globalMaxFrame := by
  unfold maxFrameFor globalMaxFrame maxSnapshotFrame maxStreamFrame
  split <;> omega

def envelopeFormat : FrameFormat (Envelope π) Raised where
  dump e := (codec.modelDumpJson e).elim (.error .valueError) .ok
  parse body := match codec.modelValidateJson body with
    | none => .error .valueError
    | some e => .ok e
  limit e := maxFrameFor e.type
  ceiling := globalMaxFrame
  raised := id
  frameTooLarge e n := .frameTooLargeError s!"frame of {n} bytes exceeds {maxFrameFor e.type} for {e.type.value}"
    "Reduce the payload size or use a SNAPSHOT frame for large state."
  shorterThanPrefix :=
    .incompleteFrameError s!"frame shorter than {prefixLen}-byte prefix" "Read a full frame before decoding."
  bodyTooLarge length := .frameTooLargeError s!"frame body of {length} bytes exceeds global ceiling {globalMaxFrame}"
    "Reject the frame; the peer sent an oversized body."
  bodyUnavailable length available := .incompleteFrameError
    s!"declared {length} body bytes but only {available} available" "Read the full frame before decoding."
  eofBeforeFrame := .incompleteFrameError "EOF before any frame" "The peer closed the connection."
  eofInsidePrefix := .incompleteFrameError "EOF inside the length prefix" "The peer closed mid-prefix."
  declaredTooLarge length := .frameTooLargeError
    s!"declared body of {length} bytes exceeds global ceiling {globalMaxFrame}"
    "Reject the frame; the peer sent an oversized body."
  eofInsideBody got length := .incompleteFrameError s!"EOF inside frame body: {got} of {length} bytes"
    "The peer closed mid-frame."
  limit_le e := maxFrameFor_le e.type
  ceiling_lt := by decide

theorem encode_eq : (envelopeFormat codec).encode = encode codec := by
  funext e
  unfold FrameFormat.encode encode
  dsimp only [envelopeFormat]
  cases codec.modelDumpJson e <;> rfl

theorem envelopeFormat_roundTrips {e : Envelope π} (h : codec.RoundTrips e) : (envelopeFormat codec).RoundTrips e := by
  intro body hbody
  have hvalid := h body (elim_error_eq_ok_iff.1 hbody)
  simp only [envelopeFormat, hvalid]

theorem decodeFrame_eq : (envelopeFormat codec).decodeFrame = decodeFrame codec := rfl

theorem readFrame_eq : (envelopeFormat codec).readFrame = readFrame codec := by
  funext s
  unfold FrameFormat.readFrame readFrame
  rcases readExactly s prefixLen with ⟨_ | header, s₁⟩
  · rfl
  · refine if_congr Iff.rfl rfl (if_congr Iff.rfl rfl (if_congr Iff.rfl rfl ?_))
    dsimp only [envelopeFormat]
    rcases readExactly s₁ (unpack header) with ⟨_ | body, s₂⟩
    · rfl
    · refine if_congr Iff.rfl rfl ?_
      cases codec.modelValidateJson body <;> rfl

/-! ## The sizes the decoders pass -/

/-- The length of the body that the prefix declares. -/
def declared (data : List UInt8) : ℕ := unpack (data.take prefixLen)

/-- **A frame no encoder makes that the decoders take**: a valid envelope, whole, over the limit of its type but with a
body within the ceiling of all types. -/
def Oversized (data : List UInt8) : Prop :=
  prefixLen + declared data ≤ data.length ∧ declared data ≤ 16 * 1024 * 1024 ∧
    ∃ e, codec.modelValidateJson ((data.drop prefixLen).take (declared data)) = some e ∧
      if e.type = .snapshot then 16 * 1024 * 1024 - 4 < declared data else 1024 * 1024 - 4 < declared data

theorem toOption_eq_some_iff {α ρ : Type} {x : Except ρ α} {a : α} : x.toOption = some a ↔ x = .ok a := by
  cases x <;> simp [Except.toOption]

theorem decodeFrame_eq_ok_iff {data : List UInt8} {e : Envelope π} : decodeFrame codec data = .ok e ↔
    prefixLen + declared data ≤ data.length ∧ declared data ≤ 16 * 1024 * 1024 ∧
      codec.modelValidateJson ((data.drop prefixLen).take (declared data)) = some e := by
  unfold decodeFrame declared globalMaxFrame maxSnapshotFrame
  split
  · rename_i hshort
    refine iff_of_false (fun h => by cases h) (fun h => ?_)
    have := h.1
    omega
  · dsimp only
    split
    · rename_i hlarge
      refine iff_of_false (fun h => by cases h) (fun h => ?_)
      have := h.2.1
      omega
    · split
      · rename_i hpart
        refine iff_of_false (fun h => by cases h) (fun h => ?_)
        have := h.1
        omega
      · rename_i hlarge hpart
        rw [and_iff_right (by omega), and_iff_right (by omega)]
        cases codec.modelValidateJson ((data.drop prefixLen).take (unpack (data.take prefixLen))) <;> simp

theorem maxFrameFor_lt_iff (t : EventType) (length : ℕ) : maxFrameFor t < prefixLen + length ↔
    if t = .snapshot then 16 * 1024 * 1024 - 4 < length else 1024 * 1024 - 4 < length := by
  unfold maxFrameFor maxSnapshotFrame maxStreamFrame prefixLen
  split <;> omega

theorem oversized_iff (data : List UInt8) : Oversized codec data ↔
    ∃ e, decodeFrame codec data = .ok e ∧ maxFrameFor e.type < prefixLen + declared data := by
  unfold Oversized
  simp only [decodeFrame_eq_ok_iff, maxFrameFor_lt_iff]
  constructor
  · rintro ⟨hwhole, hceiling, e, hvalid, hsize⟩
    exact ⟨e, ⟨hwhole, hceiling, hvalid⟩, hsize⟩
  · rintro ⟨e, ⟨hwhole, hceiling, hvalid⟩, hsize⟩
    exact ⟨hwhole, hceiling, e, hvalid, hsize⟩

theorem readFrame_eq_ok_iff {data : List UInt8} {pieces : List (UInt8 × List UInt8)}
    (hbytes : bytesOf (arrivals pieces) = data) {tail : Socket} (hends : Ends tail) {e : Envelope π} :
    (readFrame codec (arrivals pieces ++ tail)).1 = .ok e ↔ decodeFrame codec data = .ok e := by
  have h := (envelopeFormat codec).toOption_readFrame data hbytes hends
  rw [readFrame_eq, decodeFrame_eq] at h
  rw [← toOption_eq_some_iff, h, toOption_eq_some_iff]

/-- **What the decoders accept is within the limit of its type exactly when it is not of these sizes.** -/
theorem withinLimit_iff (data : List UInt8) {pieces : List (UInt8 × List UInt8)}
    (hbytes : bytesOf (arrivals pieces) = data) {tail : Socket} (hends : Ends tail) :
    ((∀ e, decodeFrame codec data = .ok e → prefixLen + declared data ≤ maxFrameFor e.type) ↔ ¬ Oversized codec data) ∧
      ((∀ e, (readFrame codec (arrivals pieces ++ tail)).1 = .ok e → prefixLen + declared data ≤ maxFrameFor e.type) ↔
        ¬ Oversized codec data) := by
  have hdecode : (∀ e, decodeFrame codec data = .ok e → prefixLen + declared data ≤ maxFrameFor e.type) ↔
      ¬ Oversized codec data := by
    rw [oversized_iff]
    push Not
    rfl
  exact ⟨hdecode, by simpa only [readFrame_eq_ok_iff codec hbytes hends] using hdecode⟩

/-! ## A token with two mebibytes of white space -/

def token : Envelope String := ⟨.agentTokenStream, 1, "x"⟩

def tokenJson : List UInt8 :=
  ("\x7b\"type\":\"AGENT_TOKEN_STREAM\",\"seq\":1,\"payload\":\x7b\"type\":\"AGENT_TOKEN_STREAM\",\"seq\":1," ++
    "\"token\":\"x\",\"agent\":\"\"\x7d\x7d").toList.map (fun c => UInt8.ofNat c.toNat)

/-- Pydantic on the JSON of one event, which may have blanks before it. -/
def tokenCodec : EnvelopeCodec String where
  modelDumpJson _ := some tokenJson
  modelValidateJson bytes := if bytes.dropWhile (· = 32) = tokenJson then some token else none

def blanks (n : ℕ) : List UInt8 := List.replicate n 32

/-- The frame of the event after `n` blanks. -/
def blankFrame (n : ℕ) : List UInt8 := pack (blanks n ++ tokenJson).length ++ (blanks n ++ tokenJson)

theorem dropWhile_blanks (n : ℕ) : (blanks n ++ tokenJson).dropWhile (· = 32) = tokenJson := by
  rw [List.dropWhile_append_of_pos (by simp [blanks])]
  decide

theorem length_blanks (n : ℕ) : (blanks n ++ tokenJson).length = n + 108 := by
  have htoken : tokenJson.length = 108 := by decide
  rw [List.length_append, blanks, List.length_replicate, htoken]

theorem validates_blanks (n : ℕ) : tokenCodec.modelValidateJson (blanks n ++ tokenJson) = some token :=
  if_pos (dropWhile_blanks n)

theorem decodeFrame_blankFrame {n : ℕ} (h : n + 108 ≤ globalMaxFrame) :
    decodeFrame tokenCodec (blankFrame n) = .ok token := by
  have hlen := length_blanks n
  have hdecode : (envelopeFormat tokenCodec).decodeFrame (blankFrame n) =
      (envelopeFormat tokenCodec).parse (blanks n ++ tokenJson) := FrameFormat.decodeFrame_frame (hlen.trans_le h)
  rw [← decodeFrame_eq, hdecode]
  simp only [envelopeFormat, validates_blanks]

theorem declared_blankFrame {n : ℕ} (h : n + 108 < 4294967296) : declared (blankFrame n) = n + 108 := by
  have htake : (blankFrame n).take prefixLen = pack (blanks n ++ tokenJson).length := List.take_left' rfl
  rw [declared, htake, length_blanks, unpack_pack h]

/-- A plain frame of the event, all of it in one piece. -/
theorem withinLimit_blankFrame :
    (∀ e, decodeFrame tokenCodec (blankFrame 0) = .ok e → prefixLen + declared (blankFrame 0) ≤ maxFrameFor e.type) ∧
      ∀ e, (readFrame tokenCodec (arrivals [(0, (blankFrame 0).tail)] ++ [.closed])).1 = .ok e →
        prefixLen + declared (blankFrame 0) ≤ maxFrameFor e.type := by
  have hbytes : bytesOf (arrivals [(0, (blankFrame 0).tail)]) = blankFrame 0 := by
    have hfirst : UInt8.ofNat ((blanks 0 ++ tokenJson).length / 16777216) = 0 := by
      rw [length_blanks]
      rfl
    show 0 :: (blankFrame 0).tail ++ [] = blankFrame 0
    rw [List.append_nil, ← hfirst]
    rfl
  have hfits : ¬ Oversized tokenCodec (blankFrame 0) := by
    rintro ⟨-, -, e, -, hsize⟩
    rw [declared_blankFrame (by omega)] at hsize
    split at hsize <;> omega
  obtain ⟨hdecode, hread⟩ := withinLimit_iff tokenCodec (blankFrame 0) hbytes (show Ends [.closed] from trivial)
  exact ⟨hdecode.2 hfits, hread.2 hfits⟩

/-- **A frame of 2 MiB and more of a token**, for which the limit is 1 MiB, decodes and reads. -/
theorem oversized_accepted : maxFrameFor token.type < (blankFrame (2 * 1024 * 1024)).length ∧
    decodeFrame tokenCodec (blankFrame (2 * 1024 * 1024)) = .ok token ∧
    (readFrame tokenCodec (pushBack (blankFrame (2 * 1024 * 1024)) [.closed])).1 = .ok token := by
  have hlen := length_blanks (2 * 1024 * 1024)
  have hdecode : decodeFrame tokenCodec (blankFrame (2 * 1024 * 1024)) = .ok token :=
    decodeFrame_blankFrame (by decide)
  refine ⟨?_, hdecode, ?_⟩
  · rw [blankFrame, List.length_append, length_pack, hlen]
    decide
  · obtain ⟨pieces, hpush, hbytes⟩ := pushBack_arrivals (blankFrame (2 * 1024 * 1024)) [] [.closed]
    rw [show bytesOf (arrivals []) = [] from rfl, List.append_nil] at hbytes
    rw [show pushBack (blankFrame (2 * 1024 * 1024)) [.closed] = _ from hpush]
    exact (readFrame_eq_ok_iff tokenCodec hbytes (show Ends [.closed] from trivial)).2 hdecode

end Ipc
end DevHarness
