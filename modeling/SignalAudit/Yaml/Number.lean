import SignalAudit.Yaml.Timestamp

/-!
Numbers as YAML writes them.
-/

namespace SignalAudit.Yaml

/-- An ASCII letter in lower case. -/
def lowerByte (b : UInt8) : UInt8 := if 0x41 ≤ b && b ≤ 0x5A then b + 0x20 else b

/-- The value of a digit or letter. -/
def digitOf? (b : UInt8) : Option Nat :=
  if isDigitByte b then some (digitValue b)
  else
    let b := lowerByte b
    if 0x61 ≤ b && b ≤ 0x7A then some (b.toNat - 0x61 + 10) else none

/-- Digits of a base. -/
def digitsFrom (base : Nat) : Nat → Text → Option Nat
  | acc, [] => some acc
  | acc, b :: rest =>
    match digitOf? b with
    | some d => if d < base then digitsFrom base (acc * base + d) rest else none
    | none => none

/-- A natural number whose base is told by how it begins: `0b`, `0o`, `0x`, or a zero alone for octal. -/
def basedNumber : Text → Option Nat
  | [] => none
  | 0x30 :: b :: c :: rest =>
    let mark := lowerByte b
    if mark = 0x62 then digitsFrom 2 0 (c :: rest)
    else if mark = 0x6F then digitsFrom 8 0 (c :: rest)
    else if mark = 0x78 then digitsFrom 16 0 (c :: rest)
    else digitsFrom 8 0 (b :: c :: rest)
  | 0x30 :: rest => digitsFrom 8 0 rest
  | t => digitsFrom 10 0 t

/-- A natural number of at least one digit. -/
def plainNumber (base : Nat) (t : Text) : Option Nat := if t.isEmpty then none else digitsFrom base 0 t

/-- An integer of 64 bits, by way of its sign and what reads its magnitude. -/
def signedNumber (read : Text → Option Nat) : Text → Option Int
  | 0x2D :: rest => do
    let n ← read rest
    if n ≤ Nat.pow 2 63 then some (-(n : Int)) else none
  | 0x2B :: rest => do
    let n ← read rest
    if n < Nat.pow 2 63 then some n else none
  | t => do
    let n ← read t
    if n < Nat.pow 2 63 then some n else none

/-- A natural number of 64 bits. -/
def unsignedNumber (read : Text → Option Nat) (t : Text) : Option Nat := do
  let n ← read t
  if n < Nat.pow 2 64 then some n else none

/-- An integer, and whether it needs the highest of 64 bits. -/
inductive Whole where
  | signed
  | unsigned
  deriving Repr, DecidableEq

/-- The first reading that succeeds: with a sign, or without one and with one bit more. -/
def wholeBy (read : Text → Option Nat) (t : Text) : Option Whole :=
  if (signedNumber read t).isSome then some .signed
  else if (unsignedNumber read t).isSome then some .unsigned
  else none

/-- A number after one of the marks `0b` and `0o`, which may have a sign before or behind the mark. -/
def markedWhole (letter : UInt8) (base : Nat) (t : Text) : Option Whole :=
  match t with
  | 0x2D :: 0x30 :: b :: rest =>
    if b = letter then (signedNumber (plainNumber base) (0x2D :: rest)).map fun _ => .signed else none
  | 0x30 :: b :: rest => if b = letter then wholeBy (plainNumber base) rest else none
  | _ => none

/-- A decimal number: the digits of its mantissa without leading zeros, and the power of ten of the last. -/
structure Decimal where
  digits : Text
  exponent : Int

/-- Digits before and after a point. At least one is needed. -/
def readMantissa (t : Text) : Option (Decimal × Text) :=
  let whole := t.takeWhile isDigitByte
  let rest := t.drop whole.length
  let (fraction, rest) := match rest with
    | 0x2E :: after =>
      let fraction := after.takeWhile isDigitByte
      (fraction, after.drop fraction.length)
    | _ => ([], rest)
  if whole.isEmpty && fraction.isEmpty then none
  else some (⟨(whole ++ fraction).dropWhile (· == 0x30), -(fraction.length : Int)⟩, rest)

/-- A decimal exponent. Beyond some thousands its size does not matter. -/
def readExponent : Text → Option Int
  | e :: rest =>
    if lowerByte e = 0x65 then
      let (negative, digits) := match rest with
        | 0x2B :: digits => (false, digits)
        | 0x2D :: digits => (true, digits)
        | digits => (false, digits)
      if digits.isEmpty || !digits.all isDigitByte then none
      else
        let n := digits.foldl (fun n b => if n < 10000 then n * 10 + digitValue b else n) 0
        some (if negative then -(n : Int) else n)
    else none
  | [] => some 0

/-- The least number that has no nearest double: half a unit above the greatest double. -/
def doubleLimit : Nat := Nat.pow 2 1024 - Nat.pow 2 970

/-- A decimal number that is within the range of doubles. -/
def Decimal.isFinite (d : Decimal) : Bool :=
  let magnitude := (d.digits.length : Int) + d.exponent
  if d.digits.isEmpty || decide (magnitude < 309) then true
  else if 309 < magnitude then false
  else
    let n := d.digits.foldl (fun n b => n * 10 + digitValue b) 0
    match d.exponent with
    | .ofNat e => decide (n * Nat.pow 10 e < doubleLimit)
    | .negSucc e => decide (n < doubleLimit * Nat.pow 10 (e + 1))

/-- A decimal number without a sign. -/
def isUnsignedFloat (t : Text) : Bool :=
  match readMantissa t with
  | none => false
  | some (d, rest) =>
    match readExponent rest with
    | none => false
    | some e => { d with exponent := d.exponent + e }.isFinite

/-- A decimal number. -/
def isFloat : Text → Bool
  | 0x2B :: rest => isUnsignedFloat rest
  | 0x2D :: rest => isUnsignedFloat rest
  | t => isUnsignedFloat t

/-- Underscores stand between digits only. -/
def underscoresFit : Bool → Text → Bool
  | _, [] => true
  | afterDigit, 0x5F :: rest =>
    match rest with
    | b :: _ => afterDigit && isDigitByte b && underscoresFit false rest
    | [] => false
  | _, b :: rest => underscoresFit (isDigitByte b) rest

end SignalAudit.Yaml
