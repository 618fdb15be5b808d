/-!
Text is a list of bytes. Source files need not be valid UTF-8, and every name, path and message that is
cut out of them keeps their bytes, so code points are only a view of text (`Text.CodePoint`).
-/

namespace SignalAudit

/-- A byte string. -/
abbrev Text := List UInt8

/-- The UTF-8 bytes of a string. -/
def text (s : String) : Text := s.toUTF8.data.toList

namespace Text

/-- The decimal digits of a number. -/
def ofNat (n : Nat) : Text := text n.repr

/-- A number with a minus sign when it is negative. -/
def ofInt : Int → Text
  | .ofNat n => ofNat n
  | .negSucc n => text "-" ++ ofNat (n + 1)

/-- What follows the first occurrence of a marker. -/
def after? (marker : Text) : Text → Option Text
  | [] => if marker.isEmpty then some [] else none
  | b :: rest =>
    if marker.isPrefixOf (b :: rest) then some ((b :: rest).drop marker.length)
    else after? marker rest

/-- Every line ends in a newline. -/
def ofLines (lines : List Text) : Text := lines.flatMap (· ++ text "\n")

end Text

end SignalAudit
