import SignalAudit.Text.CodePoint

/-!
The characters of a YAML stream. A byte order mark tells the encoding, UTF-8 when there is none. Bytes are decoded
block by block, and only when they are asked for: a stream may hold something undecodable, or a character that a
stream must not hold, as long as nobody asks for its block.
-/

namespace SignalAudit.Yaml

inductive Encoding where
  | utf8
  | utf16 (bigEndian : Bool)
  deriving Repr, DecidableEq

/-- What stands at the front of undecoded bytes. -/
inductive Front where
  | code (value width : Nat)
  /-- The bytes end inside a character. -/
  | incomplete
  | invalid
  deriving Repr, DecidableEq

/-- A character that a stream may hold. -/
def isAllowed (code : Nat) : Bool :=
  code == 0x9 || code == 0xA || code == 0xD || (0x20 ≤ code && code ≤ 0x7E) || code == 0x85 ||
    (0xA0 ≤ code && code ≤ 0xD7FF) || (0xE000 ≤ code && code ≤ 0xFFFD) ||
    (0x10000 ≤ code && code ≤ 0x10FFFF)

/-- The number of bytes that a first byte announces. -/
def announcedWidth (b : UInt8) : Nat :=
  if b < 0x80 then 1
  else if b < 0xC0 then 0
  else if b < 0xE0 then 2
  else if b < 0xF0 then 3
  else if b < 0xF8 then 4
  else 0

def frontUtf8 (b : UInt8) (rest : Text) : Front :=
  let width := announcedWidth b
  if width = 0 then .invalid
  else if rest.length + 1 < width then .incomplete
  else
    let p := Text.firstPoint b rest
    if p.isInvalid then .invalid else .code p.code p.width

/-- The unit that two bytes make. -/
def unit16 (bigEndian : Bool) (a b : UInt8) : Nat :=
  if bigEndian then a.toNat * 256 + b.toNat else b.toNat * 256 + a.toNat

def frontUtf16 (bigEndian : Bool) : Text → Front
  | a :: b :: rest =>
    let high := unit16 bigEndian a b
    if high / 1024 = 0xDC00 / 1024 then .invalid
    else if high / 1024 = 0xD800 / 1024 then
      match rest with
      | c :: d :: _ =>
        let low := unit16 bigEndian c d
        if low / 1024 = 0xDC00 / 1024 then .code (0x10000 + high % 1024 * 1024 + low % 1024) 4 else .invalid
      | _ => .incomplete
    else .code high 2
  | _ => .incomplete

def front (encoding : Encoding) (b : UInt8) (rest : Text) : Front :=
  match encoding with
  | .utf8 => frontUtf8 b rest
  | .utf16 bigEndian => frontUtf16 bigEndian (b :: rest)

/-- Decodes one block: its characters, put in reverse in front of `acc`, and the bytes of an incomplete character at
its end. -/
def decodeBlock (encoding : Encoding) : Nat → List Char → Text → Option (List Char × Text)
  | 0, acc, rest => some (acc, rest)
  | _ + 1, acc, [] => some (acc, [])
  | steps + 1, acc, b :: rest =>
    match front encoding b rest with
    | .incomplete => some (acc, b :: rest)
    | .invalid => none
    | .code value width =>
      if isAllowed value then decodeBlock encoding steps (Char.ofNat value :: acc) ((b :: rest).drop width)
      else none

/-- The number of bytes in a block. -/
def blockSize : Nat := 512

/-- The undecoded bytes of a stream. -/
structure Source where
  encoding : Encoding
  bytes : Text
  /-- The number of bytes in the next block. -/
  room : Nat := blockSize
  deriving Repr

namespace Source

/-- The byte order mark belongs to the first block. -/
def ofText (bytes : Text) : Source :=
  match bytes with
  | 0xFF :: 0xFE :: rest => ⟨.utf16 false, rest, blockSize - 2⟩
  | 0xFE :: 0xFF :: rest => ⟨.utf16 true, rest, blockSize - 2⟩
  | 0xEF :: 0xBB :: 0xBF :: rest => ⟨.utf8, rest, blockSize - 3⟩
  | _ => ⟨.utf8, bytes, blockSize⟩

/-- Decodes the next block. There are no characters only at the end of the stream, which must not stand inside a
character. -/
def next? (s : Source) : Option (List Char × Source) := do
  let block := s.bytes.take s.room
  let (found, left) ← decodeBlock s.encoding (block.length + 1) [] block
  if found.isEmpty && !left.isEmpty then none
  else some (found.reverse, { s with bytes := left ++ s.bytes.drop s.room, room := blockSize })

end Source

end SignalAudit.Yaml
