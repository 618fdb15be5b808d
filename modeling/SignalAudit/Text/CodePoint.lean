import SignalAudit.Text.Basic

/-!
The code points of a text. Decoding never fails: a byte that is no part of a valid UTF-8 encoding is a piece
of its own, and it counts as the replacement character.
-/

namespace SignalAudit.Text

/-- U+FFFD, the code of every byte outside a valid encoding. -/
def replacement : Nat := 0xFFFD

/-- A code point and the number of bytes it takes. -/
structure CodePoint where
  code : Nat
  width : Nat
  deriving Repr, DecidableEq

namespace CodePoint

/-- A byte outside every valid encoding. -/
def invalid : CodePoint := ⟨replacement, 1⟩

/-- A replacement character that is really in the text takes three bytes. -/
def isInvalid (p : CodePoint) : Bool := p.code == replacement && p.width == 1

end CodePoint

/-- The low six bits of a byte that continues an encoding, when it lies in the range allowed at its place. -/
def continued (low high : UInt8) (b : UInt8) : Option Nat :=
  if low ≤ b ∧ b ≤ high then some (b.toNat % 64) else none

/-- Two bytes encode a code point from U+0080. -/
def decodeTwo (lead : UInt8) : Text → CodePoint
  | b :: _ =>
    match continued 0x80 0xBF b with
    | some x => ⟨(lead.toNat % 32) * 64 + x, 2⟩
    | none => .invalid
  | [] => .invalid

/-- Three bytes encode a code point from U+0800 that is no surrogate. -/
def decodeThree (lead : UInt8) : Text → CodePoint
  | b :: c :: _ =>
    let low := if lead = 0xE0 then 0xA0 else 0x80
    let high := if lead = 0xED then 0x9F else 0xBF
    match continued low high b, continued 0x80 0xBF c with
    | some x, some y => ⟨(lead.toNat % 16) * 4096 + x * 64 + y, 3⟩
    | _, _ => .invalid
  | _ => .invalid

/-- Four bytes encode a code point from U+10000 to U+10FFFF. -/
def decodeFour (lead : UInt8) : Text → CodePoint
  | b :: c :: d :: _ =>
    let low := if lead = 0xF0 then 0x90 else 0x80
    let high := if lead = 0xF4 then 0x8F else 0xBF
    match continued low high b, continued 0x80 0xBF c, continued 0x80 0xBF d with
    | some x, some y, some z => ⟨(lead.toNat % 8) * 262144 + x * 4096 + y * 64 + z, 4⟩
    | _, _, _ => .invalid
  | _ => .invalid

/-- The code point at the front of a text, given its first byte and what follows. -/
def firstPoint (b : UInt8) (rest : Text) : CodePoint :=
  if b < 0x80 then ⟨b.toNat, 1⟩
  else if b < 0xC2 then .invalid
  else if b < 0xE0 then decodeTwo b rest
  else if b < 0xF0 then decodeThree b rest
  else if b < 0xF5 then decodeFour b rest
  else .invalid

/-- A code point together with its bytes in the text. -/
structure Piece where
  point : CodePoint
  bytes : Text
  deriving Repr, DecidableEq

/-- The pieces of a text, after `skip` bytes that belong to a piece already taken. -/
def piecesAfter : Nat → Text → List Piece
  | _, [] => []
  | 0, b :: rest =>
    let p := firstPoint b rest
    ⟨p, (b :: rest).take p.width⟩ :: piecesAfter (p.width - 1) rest
  | skip + 1, _ :: rest => piecesAfter skip rest

/-- A text cut into its code points. -/
def pieces (t : Text) : List Piece := piecesAfter 0 t

/-- The code points of a text. -/
def codes (t : Text) : List Nat := (pieces t).map (·.point.code)

/-- The number of code points. -/
def countPoints (t : Text) : Nat := (pieces t).length

/-- The byte index of the first code point with a property, searching from index `i` after `skip` bytes. -/
def indexFrom (stop : Nat → Bool) : Nat → Nat → Text → Option Nat
  | _, _, [] => none
  | i, 0, b :: rest =>
    let p := firstPoint b rest
    if stop p.code then some i else indexFrom stop (i + 1) (p.width - 1) rest
  | i, skip + 1, _ :: rest => indexFrom stop (i + 1) skip rest

/-- The byte index of the first code point with a property. -/
def indexOf? (stop : Nat → Bool) (t : Text) : Option Nat := indexFrom stop 0 0 t

/-- What stands before the first code point that is among the code points of `stops`. -/
def beforeAny? (stops t : Text) : Option Text :=
  let codes := codes stops
  (indexOf? codes.contains t).map t.take

/-- The UTF-8 bytes of a code point. -/
def encode (code : Nat) : Text :=
  if code < 0x80 then [code.toUInt8]
  else if code < 0x800 then [(0xC0 + code / 64).toUInt8, (0x80 + code % 64).toUInt8]
  else if code < 0x10000 then
    [(0xE0 + code / 4096).toUInt8, (0x80 + code / 64 % 64).toUInt8, (0x80 + code % 64).toUInt8]
  else
    [(0xF0 + code / 262144).toUInt8, (0x80 + code / 4096 % 64).toUInt8, (0x80 + code / 64 % 64).toUInt8,
      (0x80 + code % 64).toUInt8]

end SignalAudit.Text
