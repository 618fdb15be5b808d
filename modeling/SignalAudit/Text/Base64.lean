import SignalAudit.Text.Basic

/-!
Base 64: four digits for three bytes, with equals signs where the last group is short. Line breaks do not count.
-/

namespace SignalAudit.Text.Base64

/-- The value of a digit. -/
def value? (b : UInt8) : Option Nat :=
  if 0x41 ≤ b ∧ b ≤ 0x5A then some (b.toNat - 0x41)
  else if 0x61 ≤ b ∧ b ≤ 0x7A then some (b.toNat - 0x61 + 26)
  else if 0x30 ≤ b ∧ b ≤ 0x39 then some (b.toNat - 0x30 + 52)
  else if b = 0x2B then some 62
  else if b = 0x2F then some 63
  else none

/-- Decodes groups of four digits. -/
def decodeGroups : Text → Option Text
  | [] => some []
  | [a, b, 0x3D, 0x3D] => do
    let a ← value? a
    let b ← value? b
    some [(a * 4 + b / 16).toUInt8]
  | [a, b, c, 0x3D] => do
    let a ← value? a
    let b ← value? b
    let c ← value? c
    some [(a * 4 + b / 16).toUInt8, (b % 16 * 16 + c / 4).toUInt8]
  | a :: b :: c :: d :: rest => do
    let a ← value? a
    let b ← value? b
    let c ← value? c
    let d ← value? d
    let rest ← decodeGroups rest
    some ((a * 4 + b / 16).toUInt8 :: (b % 16 * 16 + c / 4).toUInt8 :: (c % 4 * 64 + d).toUInt8 :: rest)
  | _ => none

/-- The bytes that a text in base 64 stands for. -/
def decode? (t : Text) : Option Text := decodeGroups (t.filter fun b => b != 0x0A && b != 0x0D)

end SignalAudit.Text.Base64
