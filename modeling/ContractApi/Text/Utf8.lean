import ContractApi.Text.Basic
/-!
# UTF-8

- `Text.encode` writes a text as bytes; an unpaired surrogate has no encoded form, and the first run of them is reported
  (`Text.refusal?`).
- `Text.decode` reads bytes; the first sequence that is no encoded code point is reported with the bytes it covers: a
  byte that starts nothing, a started sequence up to the byte that does not continue it, or all that is left of the
  input.
-/

namespace ContractApi.Text

/-- The bytes of one code point. -/
def encodePoint (c : CodePoint) : List UInt8 :=
  if c.val < 0x80 then [.ofNat c.val]
  else if c.val < 0x800 then [.ofNat (0xC0 + c.val / 0x40), .ofNat (0x80 + c.val % 0x40)]
  else if c.val < 0x10000 then
    [.ofNat (0xE0 + c.val / 0x1000), .ofNat (0x80 + c.val / 0x40 % 0x40), .ofNat (0x80 + c.val % 0x40)]
  else
    [.ofNat (0xF0 + c.val / 0x40000), .ofNat (0x80 + c.val / 0x1000 % 0x40), .ofNat (0x80 + c.val / 0x40 % 0x40),
      .ofNat (0x80 + c.val % 0x40)]

/-- The run of surrogates that begins with the first refused code point of a text: its first position and the position
after it. -/
def refusal? (refused : CodePoint → Bool) (text : Text) : Option (Nat × Nat) :=
  (text.findIdx? refused).map fun start =>
    (start, start + ((text.drop start).takeWhile CodePoint.isSurrogate).length)

/-- The bytes of a text, or the first run of surrogates. -/
def encode (text : Text) : Except (Nat × Nat) (List UInt8) :=
  match text.refusal? CodePoint.isSurrogate with
  | none => .ok (text.flatMap encodePoint)
  | some place => .error place

/-- Why bytes are no encoded text. -/
inductive DecodeReason where
  /-- No sequence starts with the byte. -/
  | invalidStart
  /-- A sequence has begun and the next byte does not continue it. -/
  | invalidContinuation
  /-- The input ends within a sequence. -/
  | unexpectedEnd
deriving DecidableEq, Repr

/-- The first bytes of an input that are no encoded code point. -/
structure DecodeFault where
  /-- What is wrong with them. -/
  reason : DecodeReason
  /-- The position of the first of them. -/
  start : Nat
  /-- The bytes at fault. -/
  bytes : List UInt8
deriving DecidableEq, Repr

/-- The wording of a reason. -/
def DecodeReason.message : DecodeReason → Text
  | invalidStart => "invalid start byte"
  | invalidContinuation => "invalid continuation byte"
  | unexpectedEnd => "unexpected end of data"

/-- The wording for bytes that are no encoded text: one byte is shown, of several the positions are given. -/
def DecodeFault.message (fault : DecodeFault) : Text :=
  let place : Text :=
    match fault.bytes with
    | [b] => "byte 0x" ++ hex 2 b.toNat ++ " in position " ++ ofNat fault.start
    | bytes => "bytes in position " ++ ofNat fault.start ++ "-" ++ ofNat (fault.start + bytes.length - 1)
  "'utf-8' codec can't decode " ++ place ++ ": " ++ fault.reason.message

/-- What the first byte of a sequence announces. -/
structure Lead where
  /-- The bits of the code point that the byte carries. -/
  bits : Nat
  /-- How many bytes follow. -/
  following : Nat
  /-- The least second byte; the bound rules out longer forms than needed. -/
  low : Nat
  /-- The greatest second byte; the bound rules out surrogates and numbers that are no code points. -/
  high : Nat

/-- The lead byte of a sequence, if the byte is one. -/
def Lead.ofByte? (b : UInt8) : Option Lead :=
  let n := b.toNat
  if n < 0x80 then some ⟨n, 0, 0, 0⟩
  else if n < 0xC2 then none
  else if n < 0xE0 then some ⟨n - 0xC0, 1, 0x80, 0xBF⟩
  else if n < 0xF0 then
    some ⟨n - 0xE0, 2, if n = 0xE0 then 0xA0 else 0x80, if n = 0xED then 0x9F else 0xBF⟩
  else if n < 0xF5 then
    some ⟨n - 0xF0, 3, if n = 0xF0 then 0x90 else 0x80, if n = 0xF4 then 0x8F else 0xBF⟩
  else none

/-- Reads the bytes that follow a lead byte: how many are missing, the bounds of the next one, the bits read so far, and
the bytes of the sequence so far, last first. -/
def decodeTail (start : Nat) : Nat → Nat → Nat → Nat → List UInt8 → List UInt8 →
    Except DecodeFault (CodePoint × List UInt8)
  | 0, _, _, bits, _, rest => .ok (CodePoint.ofNat bits, rest)
  | _ + 1, _, _, _, seen, [] => .error ⟨.unexpectedEnd, start, seen.reverse⟩
  | missing + 1, low, high, bits, seen, b :: rest =>
    if low ≤ b.toNat ∧ b.toNat ≤ high then
      decodeTail start missing 0x80 0xBF (bits * 0x40 + b.toNat % 0x40) (b :: seen) rest
    else .error ⟨.invalidContinuation, start, seen.reverse⟩

/-- Reads the code point at the front of the bytes, of which the first has the position `start`. -/
def decodePoint (start : Nat) (b : UInt8) (rest : List UInt8) : Except DecodeFault (CodePoint × List UInt8) :=
  match Lead.ofByte? b with
  | none => .error ⟨.invalidStart, start, [b]⟩
  | some lead => decodeTail start lead.following lead.low lead.high lead.bits [b] rest

/-- Reads at most `fuel` code points, of which each takes at least one byte, onto those read before, last first. -/
def decodeFrom : Nat → Nat → Text → List UInt8 → Except DecodeFault Text
  | _, _, read, [] => .ok read.reverse
  | 0, _, read, _ => .ok read.reverse
  | fuel + 1, start, read, b :: rest => do
    let (c, rest') ← decodePoint start b rest
    decodeFrom fuel (start + (rest.length + 1 - rest'.length)) (c :: read) rest'

/-- The text that the bytes encode. -/
def decode (bytes : List UInt8) : Except DecodeFault Text :=
  decodeFrom bytes.length 0 [] bytes

end ContractApi.Text
