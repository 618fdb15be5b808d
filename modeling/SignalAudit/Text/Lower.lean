import SignalAudit.Text.CodePoint

/-!
Lower case, for comparison with words of ASCII letters. Beside the letters A to Z only two code points have an
ASCII letter as their lower case: the dotted capital I and the Kelvin sign. All others stay as they are, since
no word of ASCII letters can hold either form of them.
-/

namespace SignalAudit.Text

/-- The lower case of a code point, as far as it is an ASCII letter. -/
def lowerCode (code : Nat) : Nat :=
  if 0x41 ≤ code ∧ code ≤ 0x5A then code + 0x20
  else if code = 0x130 then 0x69
  else if code = 0x212A then 0x6B
  else code

/-- Lower case, code point by code point. -/
def lower (t : Text) : Text := (pieces t).flatMap fun p =>
  let code := lowerCode p.point.code
  if code = p.point.code then p.bytes else encode code

end SignalAudit.Text
