import AriaLint.Text.Quoted

/-!
# UTF-8

`encode` writes a text as bytes and `decode` reads bytes as a text.  A refusal names the bytes that
could not be read and the reason: a byte that starts no character, a byte that does not continue
the character begun, or the end of the data inside a character.  Overlong forms, surrogates and
code points above U+10FFFF are excluded by the narrower range of the second byte.

No character is a surrogate, so every text has its bytes.  A run may be handed surrogates all the
same; characters stand for them then, and `encode?` refuses those.
-/

namespace AriaLint.Utf8

/-- Why bytes are no UTF-8. -/
inductive Fault where
  | startByte
  | continuationByte
  | endOfData
  deriving DecidableEq, Repr

/-- The wording of a fault. -/
def Fault.message : Fault → Text
  | .startByte => "invalid start byte"
  | .continuationByte => "invalid continuation byte"
  | .endOfData => "unexpected end of data"

/-- A refusal: the position of the first byte that could not be read, how many bytes are concerned,
the first of them, and the reason. -/
structure Refusal where
  position : Nat
  count : Nat
  byte : UInt8
  fault : Fault
  deriving DecidableEq, Repr

/-- The wording of a refusal; a single byte is shown, several are given by their positions. -/
def Refusal.message (r : Refusal) : Text :=
  "\x27utf-8\x27 codec can\x27t decode byte" ++
    (if r.count = 1 then
      (" 0x" : Text) ++ Text.hex 2 r.byte.toNat ++ " in position " ++ Text.ofNat r.position
    else
      ("s in position " : Text) ++ Text.ofNat r.position ++ "-" ++
        Text.ofNat (r.position + r.count - 1)) ++
    ": " ++ r.fault.message

/-- The bytes of a text. -/
def encode (t : Text) : List UInt8 := t.flatMap String.utf8EncodeChar

/-- What the first byte of a character says: the bits that it contributes, and the range of each
byte that has to follow. -/
structure Lead where
  bits : Nat
  tails : List (Nat × Nat)

/-- The range of a continuation byte. -/
def tail : Nat × Nat := (0x80, 0xBF)

/-- The meaning of a first byte; none for a byte that starts no character. -/
def lead? (b : Nat) : Option Lead :=
  if b < 0x80 then some ⟨b, []⟩
  else if b < 0xC2 then none
  else if b < 0xE0 then some ⟨b - 0xC0, [tail]⟩
  else if b = 0xE0 then some ⟨0, [(0xA0, 0xBF), tail]⟩
  else if b = 0xED then some ⟨0xD, [(0x80, 0x9F), tail]⟩
  else if b < 0xF0 then some ⟨b - 0xE0, [tail, tail]⟩
  else if b = 0xF0 then some ⟨0, [(0x90, 0xBF), tail, tail]⟩
  else if b < 0xF4 then some ⟨b - 0xF0, [tail, tail, tail]⟩
  else if b = 0xF4 then some ⟨4, [(0x80, 0x8F), tail, tail]⟩
  else none

/-- Bytes in the given ranges, gathered onto `bits`: the code point and the bytes that follow.  On
failure, the number of bytes that were in range, and the reason. -/
def readTails : (ranges : List (Nat × Nat)) → (bits : Nat) → List UInt8 →
    Except (Nat × Fault) (Nat × List UInt8)
  | [], bits, rest => .ok (bits, rest)
  | _ :: _, _, [] => .error (0, .endOfData)
  | (low, high) :: ranges, bits, b :: rest =>
    if low ≤ b.toNat ∧ b.toNat ≤ high then
      match readTails ranges (bits * 64 + (b.toNat - 0x80)) rest with
      | .ok done => .ok done
      | .error (n, fault) => .error (n + 1, fault)
    else .error (0, .continuationByte)

theorem length_of_readTails {ranges : List (Nat × Nat)} {bits code : Nat} {bytes rest : List UInt8}
    (h : readTails ranges bits bytes = .ok (code, rest)) :
    rest.length + ranges.length = bytes.length := by
  induction ranges generalizing bits bytes with
  | nil => simp_all [readTails]
  | cons r ranges ih =>
    cases bytes with
    | nil => simp [readTails] at h
    | cons b bytes =>
      simp only [readTails] at h
      split at h
      · split at h
        · next done hd =>
          have := ih (hd.trans h)
          simp only [List.length_cons]
          omega
        · simp at h
      · simp at h

/-- Read the bytes from `position` on. -/
def decodeFrom (position : Nat) : List UInt8 → Except Refusal Text
  | [] => .ok []
  | b :: rest =>
    match lead? b.toNat with
    | none => .error ⟨position, 1, b, .startByte⟩
    | some lead =>
      match h : readTails lead.tails lead.bits rest with
      | .error (n, fault) => .error ⟨position, n + 1, b, fault⟩
      | .ok (code, after) =>
        (decodeFrom (position + 1 + lead.tails.length) after).map (Char.ofNat code :: ·)
termination_by bytes => bytes.length
decreasing_by
  have := length_of_readTails h
  simp only [List.length_cons]
  omega

/-- Read bytes as a text. -/
def decode (bytes : List UInt8) : Except Refusal Text := decodeFrom 0 bytes

/-! ## Surrogates -/

/-- Which characters of a text stand for surrogates, and for which.  A surrogate is no character and
no rule looks at one, so that other characters that no rule looks at can stand for surrogates that
come with a text from elsewhere. -/
abbrev Surrogates := Char → Option Nat

/-- Surrogates that keep a text from being encoded: the position of the first one, how many stand
there in a row, and its code point. -/
structure EncodingRefusal where
  position : Nat
  count : Nat
  codePoint : Nat
  deriving DecidableEq, Repr

/-- The wording of a refusal; a single surrogate is shown, several are given by their positions. -/
def EncodingRefusal.message (r : EncodingRefusal) : Text :=
  "\x27utf-8\x27 codec can\x27t encode character" ++
    (if r.count = 1 then
      (" \x27\\u" : Text) ++ Text.hex 4 r.codePoint ++ "\x27 in position " ++ Text.ofNat r.position
    else
      ("s in position " : Text) ++ Text.ofNat r.position ++ "-" ++
        Text.ofNat (r.position + r.count - 1)) ++
    ": surrogates not allowed"

/-- The bytes of a text, if none of its characters stands for a surrogate. -/
def encode? (surrogates : Surrogates) (t : Text) : Except EncodingRefusal (List UInt8) :=
  match t.dropWhile fun c => (surrogates c).isNone with
  | [] => .ok (encode t)
  | c :: rest =>
    .error
      { position := (t.takeWhile fun c => (surrogates c).isNone).length
        count := 1 + (rest.takeWhile fun c => (surrogates c).isSome).length
        codePoint := (surrogates c).getD 0 }

/-- A text that can be encoded at all has the bytes that it has anyway. -/
theorem eq_encode_of_encode? {surrogates : Surrogates} {t : Text} {bytes : List UInt8}
    (h : encode? surrogates t = .ok bytes) : bytes = encode t := by
  unfold encode? at h
  split at h
  · exact (Except.ok.inj h).symm
  · cases h

example : decode (encode "aé€😀") = .ok ("aé€😀" : Text) := by cbv
example : decode [0x61, 0xE2, 0x82] = .error ⟨1, 2, 0xE2, .endOfData⟩ := by cbv
example : decode [0xED, 0xA0, 0x80] = .error ⟨0, 1, 0xED, .continuationByte⟩ := by cbv

end AriaLint.Utf8
