import SignalAudit.Text.Basic

/-!
The lines of a file. A newline ends a line, nothing follows a final newline, and one carriage return before the end
of a line is not part of it. A line may be too long to be read at all.
-/

namespace SignalAudit.Text

/-- Puts a byte in front of what its successors were cut into. -/
def addByte (b : UInt8) (lines : List Text) : List Text :=
  if b = 0x0A then [] :: lines
  else match lines with
    | [] => [[b]]
    | line :: lines => (b :: line) :: lines

/-- The lines of a file, carriage returns included. -/
def rawLines (content : ByteArray) : List Text := content.data.foldr addByte []

/-- Without the carriage return at its end, if it has one. -/
def dropReturn (line : Text) : Text :=
  if line.getLast? = some 0x0D then line.dropLast else line

/-- A line of this many bytes, its carriage return included, cannot be read. -/
def lineLimit : Nat := 16777216

/-- Too long to be read. -/
def isOverlong (line : Text) : Bool := decide (lineLimit ≤ line.length)

end SignalAudit.Text
