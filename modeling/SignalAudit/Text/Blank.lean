import SignalAudit.Text.CodePoint

/-!
White space, in the sense of the Unicode property of that name, and trimming.
-/

namespace SignalAudit.Text

/-- The code points with the property White_Space. -/
def isBlank (code : Nat) : Bool :=
  (0x9 ≤ code && code ≤ 0xD) || code == 0x20 || code == 0x85 || code == 0xA0 || code == 0x1680 ||
    (0x2000 ≤ code && code ≤ 0x200A) || code == 0x2028 || code == 0x2029 || code == 0x202F ||
    code == 0x205F || code == 0x3000

/-- Drops leading blanks, after `skip` bytes of a blank already met. -/
def trimStartAfter : Nat → Text → Text
  | _, [] => []
  | 0, b :: rest =>
    let p := firstPoint b rest
    if isBlank p.code then trimStartAfter (p.width - 1) rest else b :: rest
  | skip + 1, _ :: rest => trimStartAfter skip rest

/-- Drops leading blanks. -/
def trimStart (t : Text) : Text := trimStartAfter 0 t

/-- Drops trailing blanks. -/
def trimEnd (t : Text) : Text :=
  (((pieces t).reverse.dropWhile fun p => isBlank p.point.code).reverse).flatMap (·.bytes)

/-- Drops the blanks at both ends. -/
def trim (t : Text) : Text := trimEnd (trimStart t)

end SignalAudit.Text
