import SignalAudit.Text.CodePoint
import SignalAudit.Text.Printable

/-!
Quoted text: printable code points stand for themselves, all else is escaped, so that a quoted text is printable
and shows every byte of what it quotes.
-/

namespace SignalAudit.Text

/-- One hexadecimal digit. -/
def hexDigit (n : Nat) : UInt8 :=
  if n < 10 then (0x30 + n).toUInt8 else (0x61 + (n - 10)).toUInt8

/-- The last `digits` hexadecimal digits of a number. -/
def hex : Nat → Nat → Text
  | 0, _ => []
  | digits + 1, n => hex digits (n / 16) ++ [hexDigit (n % 16)]

/-- How a text is quoted: by which mark, and which code points are shown as they are. -/
structure Quoting where
  mark : UInt8
  shown : Nat → Bool

/-- Double quotes around printable code points. -/
def Quoting.standard : Quoting := ⟨0x22, isPrintable⟩

/-- Double quotes around printable ASCII. -/
def Quoting.ascii : Quoting := ⟨0x22, fun code => decide (code < 0x80) && isPrintable code⟩

/-- Single quotes, for one code point. -/
def Quoting.single : Quoting := ⟨0x27, isPrintable⟩

/-- The letter that names a control code in an escape. -/
def controlLetter? (code : Nat) : Option Text :=
  match code with
  | 0x07 => some (text "a")
  | 0x08 => some (text "b")
  | 0x0C => some (text "f")
  | 0x0A => some (text "n")
  | 0x0D => some (text "r")
  | 0x09 => some (text "t")
  | 0x0B => some (text "v")
  | _ => none

/-- An escape by number: two digits for ASCII, else four or eight. -/
def escapeCode (code : Nat) : Text :=
  if code < 0x80 then text "\\x" ++ hex 2 code
  else if code < 0x10000 then text "\\u" ++ hex 4 code
  else text "\\U" ++ hex 8 code

/-- One piece inside quotes. -/
def Quoting.piece (q : Quoting) (p : Piece) : Text :=
  if p.point.isInvalid then text "\\x" ++ p.bytes.flatMap (fun b => hex 2 b.toNat)
  else
    let code := p.point.code
    if code = q.mark.toNat ∨ code = 0x5C then text "\\" ++ p.bytes
    else if q.shown code then p.bytes
    else match controlLetter? code with
      | some letter => text "\\" ++ letter
      | none => escapeCode code

/-- A text in quotes. -/
def Quoting.apply (q : Quoting) (t : Text) : Text :=
  [q.mark] ++ (pieces t).flatMap q.piece ++ [q.mark]

/-- A text in double quotes. -/
def quote (t : Text) : Text := Quoting.standard.apply t

/-- A code point in single quotes. -/
def quoteCode (code : Nat) : Text := Quoting.single.apply (encode code)

/-- A text that can stand between backquotes: one line without backquotes, control codes (tabs apart), byte
order marks or invalid bytes. -/
def fitsBackquotes (t : Text) : Bool :=
  (pieces t).all fun p =>
    !p.point.isInvalid && p.point.code != 0xFEFF &&
      (p.point.width != 1 || ((0x20 ≤ p.point.code || p.point.code == 0x9) &&
        p.point.code != 0x60 && p.point.code != 0x7F))

end SignalAudit.Text
