import SignalAudit.Text.Basic

/-!
Dates, and dates with a time, as YAML writes them: a year of four digits, then month and day, and after a `T` or
blanks the time. After a `T` a time zone must follow, after blanks none.
-/

namespace SignalAudit.Yaml

def isDigitByte (b : UInt8) : Bool := 0x30 ≤ b && b ≤ 0x39

def digitValue (b : UInt8) : Nat := b.toNat - 0x30

/-- A number of one or two digits. -/
def shortNumber : Text → Option (Nat × Text)
  | a :: b :: rest =>
    if isDigitByte a then
      if isDigitByte b then some (digitValue a * 10 + digitValue b, rest) else some (digitValue a, b :: rest)
    else none
  | [a] => if isDigitByte a then some (digitValue a, []) else none
  | [] => none

/-- Takes a given byte. -/
def expect (byte : UInt8) : Text → Option Text
  | b :: rest => if b = byte then some rest else none
  | [] => none

/-- A number of one or two digits that is less than a bound. -/
def boundedNumber (bound : Nat) (t : Text) : Option (Nat × Text) := do
  let (n, rest) ← shortNumber t
  if n < bound then some (n, rest) else none

def isLeapYear (year : Nat) : Bool := year % 4 == 0 && (year % 100 != 0 || year % 400 == 0)

def daysInMonth (year month : Nat) : Nat :=
  if month = 2 then (if isLeapYear year then 29 else 28)
  else if month = 4 ∨ month = 6 ∨ month = 9 ∨ month = 11 then 30
  else 31

/-- The fraction of a second, if one follows. -/
def skipFraction (t : Text) : Text :=
  match t with
  | mark :: digit :: _ =>
    if (mark = 0x2E ∨ mark = 0x2C) ∧ isDigitByte digit then t.tail.dropWhile isDigitByte else t
  | _ => t

/-- Hours, minutes and seconds, and what follows them. -/
def readTime (t : Text) : Option Text := do
  let (_, t) ← boundedNumber 24 t
  let (_, t) ← boundedNumber 60 (← expect 0x3A t)
  let (_, t) ← boundedNumber 60 (← expect 0x3A t)
  some (skipFraction t)

/-- A zone is `Z`, or a sign, two digits of hours, a colon and two digits of minutes. -/
def isZone : Text → Bool
  | [0x5A] => true
  | [sign, a, b, 0x3A, c, d] =>
    (sign == 0x2B || sign == 0x2D) && isDigitByte a && isDigitByte b && isDigitByte c && isDigitByte d &&
      decide (digitValue a * 10 + digitValue b ≤ 24) && decide (digitValue c * 10 + digitValue d ≤ 60)
  | _ => false

/-- What may follow a date. -/
def isAfterDate : Text → Bool
  | [] => true
  | mark :: rest =>
    if mark = 0x54 ∨ mark = 0x74 then (readTime rest).any isZone
    else mark == 0x20 && (readTime (rest.dropWhile (· == 0x20))).any List.isEmpty

/-- Month and day after a year. -/
def isAfterYear (year : Nat) (t : Text) : Bool :=
  (do
    let (month, t) ← boundedNumber 13 t
    let (day, t) ← shortNumber (← expect 0x2D t)
    if 1 ≤ month ∧ 1 ≤ day ∧ day ≤ daysInMonth year month then some t else none).any isAfterDate

/-- A text that is read as a date. -/
def isTimestamp (t : Text) : Bool :=
  let digits := t.takeWhile isDigitByte
  digits.length == 4 &&
    match t.drop 4 with
    | 0x2D :: rest => isAfterYear (digits.foldl (fun n b => n * 10 + digitValue b) 0) rest
    | _ => false

end SignalAudit.Yaml
