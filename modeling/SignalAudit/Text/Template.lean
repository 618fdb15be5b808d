import SignalAudit.Text.Quoted

/-!
Templates: text with percent directives that is filled with one operand. A directive is a percent sign, flags, an
optional width and precision, and a verb; a bracketed number before any of these names the operand by position.
Filling never fails: a directive that makes no sense is answered in the result, by a note after `%!`.
-/

namespace SignalAudit.Text

/-- How a directive lays out its operand. -/
structure Layout where
  sharp : Bool := false
  zero : Bool := false
  plus : Bool := false
  minus : Bool := false
  space : Bool := false
  width : Option Nat := none
  precision : Option Nat := none
  deriving Repr, DecidableEq

namespace Layout

/-- Fills up to a width; zeros only go to the left. -/
def padding (l : Layout) (n : Nat) : Text :=
  List.replicate n (if l.zero && !l.minus then 0x30 else 0x20)

/-- Pads a text that counts as `size` columns. -/
def padSized (l : Layout) (size : Nat) (t : Text) : Text :=
  match l.width with
  | none => t
  | some w => if l.minus then t ++ l.padding (w - size) else l.padding (w - size) ++ t

/-- Pads a text to the width, counted in code points. -/
def pad (l : Layout) (t : Text) : Text := l.padSized (countPoints t) t

/-- Cuts a text to the precision, counted in code points. -/
def truncate (l : Layout) (t : Text) : Text :=
  match l.precision with
  | none => t
  | some n => ((pieces t).take n).flatMap (·.bytes)

/-- The operand as it is. -/
def plain (l : Layout) (t : Text) : Text := l.pad (l.truncate t)

/-- The operand in quotes. -/
def quoted (l : Layout) (t : Text) : Text :=
  let t := l.truncate t
  if l.sharp && fitsBackquotes t then l.pad (text "\x60" ++ t ++ text "\x60")
  else if l.plus then l.pad (Quoting.ascii.apply t)
  else l.pad (quote t)

/-- The operand byte by byte in hexadecimal digits; `raise` turns letters into capitals. -/
def hexadecimal (l : Layout) (raise : Bool) (t : Text) : Text :=
  let t := match l.precision with
    | none => t
    | some n => t.take n
  let capital (digits : Text) : Text :=
    if raise then digits.map fun b => if 0x61 ≤ b then b - 0x20 else b else digits
  let mark := if l.sharp then capital (text "0x") else []
  let bytes := t.map fun b => capital (hex 2 b.toNat)
  let body :=
    if l.space then (text " ").intercalate (bytes.map (mark ++ ·))
    else mark ++ bytes.flatten
  match t with
  | [] => l.padding (l.width.getD 0)
  | _ => l.padSized body.length body

end Layout

/-- The operand under a verb it does not know. -/
def badVerb (l : Layout) (verb : Nat) (shown : Text) : Text :=
  text "%!" ++ encode verb ++ text "(string=" ++ l.pad shown ++ text ")"

/-- The operand under a verb. -/
def Layout.apply (l : Layout) (verb : Nat) (operand : Text) : Text :=
  if verb = 0x73 then l.plain operand
  else if verb = 0x76 then
    if l.sharp then { l with sharp := false, plus := false }.quoted operand else l.plain operand
  else if verb = 0x71 then l.quoted operand
  else if verb = 0x78 then l.hexadecimal false operand
  else if verb = 0x58 then l.hexadecimal true operand
  else if verb = 0x54 then l.plain (text "string")
  else if verb = 0x77 ∧ l.sharp then badVerb l verb (quote (l.truncate operand))
  else badVerb l verb (l.truncate operand)

/-- Where the reading of a template stands. -/
structure Reading where
  rest : Text
  /-- The operand has been used up. -/
  used : Bool := false
  /-- Some directive named its operand by position, so a left-over operand is no mistake. -/
  reordered : Bool := false
  /-- The directive being read names no operand that does not exist. -/
  sound : Bool := true
  /-- A position was read last. -/
  positioned : Bool := false
  deriving Repr, DecidableEq

/-- A number of at most seven digits or so; a longer one swallows the rest. -/
def readNumber : Option Nat → Text → Option Nat × Text
  | acc, [] => (acc, [])
  | acc, b :: rest =>
    if 0x30 ≤ b ∧ b ≤ 0x39 then
      if acc.getD 0 > 1000000 then (none, [])
      else readNumber (some (acc.getD 0 * 10 + (b.toNat - 0x30))) rest
    else (acc, b :: rest)

namespace Reading

/-- Reads a position in brackets, if one stands here. Brackets that hold nothing and end the template are none. -/
def position (r : Reading) : Reading :=
  match r.rest with
  | 0x5B :: rest =>
    let inner := rest.takeWhile (· != 0x5D)
    if inner.length < rest.length ∧ 2 ≤ rest.length then
      let after := rest.drop (inner.length + 1)
      match readNumber none inner with
      | (some n, []) =>
        if n = 1 then { r with rest := after, used := false, reordered := true, positioned := true }
        else { r with rest := after, reordered := true, sound := false, positioned := true }
      | _ => { r with rest := after, reordered := true, sound := false, positioned := false }
    else { r with rest := rest, reordered := true, sound := false, positioned := false }
  | _ => { r with positioned := false }

/-- Reads the flags. -/
def flags : Layout → Text → Layout × Text
  | l, 0x23 :: rest => flags { l with sharp := true } rest
  | l, 0x30 :: rest => flags { l with zero := true } rest
  | l, 0x2B :: rest => flags { l with plus := true } rest
  | l, 0x2D :: rest => flags { l with minus := true } rest
  | l, 0x20 :: rest => flags { l with space := true } rest
  | l, rest => (l, rest)

/-- Reads a width; a star asks the operand, which is no number, for it. -/
def width (l : Layout) (r : Reading) : Text × Layout × Reading :=
  match r.rest with
  | 0x2A :: rest => (text "%!(BADWIDTH)", l, { r with rest := rest, used := true, positioned := false })
  | _ =>
    let (n, rest) := readNumber none r.rest
    ([], { l with width := n }, { r with rest := rest, sound := r.sound && !(r.positioned && n.isSome) })

/-- Reads a precision. A point that ends the template begins none. -/
def precision (l : Layout) (r : Reading) : Text × Layout × Reading :=
  match r.rest with
  | 0x2E :: b :: rest =>
    let r := { r with rest := b :: rest, sound := r.sound && !r.positioned }.position
    match r.rest with
    | 0x2A :: rest => (text "%!(BADPREC)", l, { r with rest := rest, used := true, positioned := false })
    | _ =>
      let (n, rest) := readNumber none r.rest
      ([], { l with precision := some (n.getD 0) }, { r with rest := rest })
  | _ => ([], l, r)

end Reading

/-- Fills in one directive; the reading stands after its percent sign. No reading is left after a template that
ends inside a directive. -/
def fillDirective (operand : Text) (r : Reading) : Text × Reading :=
  let (l, rest) := Reading.flags {} r.rest
  let r := { r with rest := rest, sound := true }.position
  let (wrongWidth, l, r) := Reading.width l r
  let (wrongPrecision, l, r) := Reading.precision l r
  let r := if r.positioned then r else r.position
  let wrong := wrongWidth ++ wrongPrecision
  match r.rest with
  | [] => (wrong ++ text "%!(NOVERB)", r)
  | b :: rest =>
    let p := firstPoint b rest
    let next := { r with rest := (b :: rest).drop p.width }
    let verb := p.code
    if verb = 0x25 then (wrong ++ text "%", next)
    else if !r.sound then (wrong ++ text "%!" ++ encode verb ++ text "(BADINDEX)", next)
    else if r.used then (wrong ++ text "%!" ++ encode verb ++ text "(MISSING)", next)
    else (wrong ++ l.apply verb operand, { next with used := true })

/-- Fills a template from a reading on; `steps` bounds the number of directives. -/
def fillFrom (operand : Text) : Nat → Reading → Text
  | 0, _ => []
  | steps + 1, r =>
    let literal := r.rest.takeWhile (· != 0x25)
    match r.rest.drop literal.length with
    | [] =>
      if r.used || r.reordered then literal
      else literal ++ text "%!(EXTRA string=" ++ operand ++ text ")"
    | _ :: rest =>
      let (filled, r) := fillDirective operand { r with rest := rest }
      literal ++ filled ++ fillFrom operand steps r

/-- A template filled with its operand. -/
def fill (template operand : Text) : Text :=
  fillFrom operand (template.length + 1) { rest := template }

end SignalAudit.Text
