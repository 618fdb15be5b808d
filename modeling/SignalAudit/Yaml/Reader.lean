import SignalAudit.Yaml.Source

/-!
A reader stands at a character of a stream and knows its position. It sees a window of decoded characters. Whoever
needs more of them asks for a number of characters ahead, and the window grows by whole blocks. Asking fails where a
block cannot be decoded; past the end of the stream it is granted, and there is nothing to see.
-/

namespace SignalAudit.Yaml

/-- A position in a stream, counted from zero. -/
structure Mark where
  index : Nat := 0
  line : Nat := 0
  column : Nat := 0
  deriving Repr, DecidableEq

structure Reader where
  source : Source
  /-- There are never more characters ahead than this. -/
  bound : Nat
  /-- The decoded characters from the present one on. -/
  ahead : List Char := []
  /-- The number of characters that were granted; some of them may lie past the end of the stream. -/
  known : Nat := 0
  /-- The window began with a byte order mark when it last grew. -/
  marked : Bool := false
  mark : Mark := {}
  /-- The number of line breaks since the last character that is not blank. -/
  newlines : Nat := 0
  deriving Repr

def isLineBreak (c : Char) : Bool :=
  c == '\n' || c == '\r' || c.toNat == 0x85 || c.toNat == 0x2028 || c.toNat == 0x2029

/-- A blank does not end a line. -/
def isSpaceOrTab (c : Char) : Bool := c == ' ' || c == '\t'

/-- A character of an anchor, of a tag handle or of a directive's name. -/
def isWordChar (c : Char) : Bool := c.isAlphanum || c == '_' || c == '-'

/-- The UTF-8 bytes of a character. -/
def charBytes (c : Char) : Text := Text.encode c.toNat

namespace Reader

def ofText (bytes : Text) : Reader := { source := .ofText bytes, bound := bytes.length }

/-- Decodes blocks until `n` characters are known. The end of the stream counts as one. -/
def decode (n : Nat) : Nat → Reader → Option Reader
  | 0, r => some r
  | steps + 1, r =>
    if n ≤ r.known then some r
    else do
      let (chars, source) ← r.source.next?
      if chars.isEmpty then some { r with source, known := r.known + 1 }
      else decode n steps { r with source, ahead := r.ahead ++ chars, known := r.known + chars.length }

/-- Asks for `n` characters ahead. -/
def ask (n : Nat) (r : Reader) : Option Reader :=
  if n ≤ r.known then some r
  else do
    let r ← decode n n r
    some { r with marked := r.ahead.head?.any (·.toNat == 0xFEFF) }

def peek? (r : Reader) : Option Char := r.ahead.head?

def peekAt? (r : Reader) (n : Nat) : Option Char := r.ahead[n]?

/-- The reader stands at a given character. -/
def sees (r : Reader) (c : Char) : Bool := r.peek? == some c

/-- The character at a distance is the end of the stream or of a line. -/
def endsLineAt (r : Reader) (n : Nat) : Bool :=
  match r.peekAt? n with
  | none => true
  | some c => isLineBreak c

/-- The character at a distance is blank, or the end of the stream or of a line. -/
def endsWordAt (r : Reader) (n : Nat) : Bool :=
  match r.peekAt? n with
  | none => true
  | some c => isLineBreak c || isSpaceOrTab c

def atEnd (r : Reader) : Bool := r.ahead.isEmpty

def atLineEnd (r : Reader) : Bool := r.endsLineAt 0

def atWordEnd (r : Reader) : Bool := r.endsWordAt 0

def atLineBreak (r : Reader) : Bool := r.peek?.any isLineBreak

def atBlank (r : Reader) : Bool := r.peek?.any isSpaceOrTab

/-- Passes over a character, which does not count as a line break. -/
def skip (r : Reader) : Reader :=
  { r with
    ahead := r.ahead.tail
    known := r.known - 1
    mark := { r.mark with index := r.mark.index + 1, column := r.mark.column + 1 }
    newlines := if r.atBlank then r.newlines else 0 }

/-- Passes over a number of characters. -/
def skipMany : Nat → Reader → Reader
  | 0, r => r
  | n + 1, r => skipMany n r.skip

/-- Passes over a character and asks for the next. -/
def advance (r : Reader) : Option Reader := r.skip.ask 1

/-- A line break as it counts in a scalar, and the reader after it. Nothing is read where there is none. -/
def readLineBreak (r : Reader) : Option (Text × Reader) := do
  let r ← r.ask 2
  let next (rest : List Char) (width : Nat) : Reader :=
    { r with
      ahead := rest
      known := r.known - width
      mark := ⟨r.mark.index + width, r.mark.line + 1, 0⟩
      newlines := r.newlines + 1 }
  match r.ahead with
  | '\r' :: '\n' :: rest => some ([0x0A], next rest 2)
  | c :: rest =>
    if c == '\n' || c == '\r' || c.toNat == 0x85 then some ([0x0A], next rest 1)
    else if c.toNat == 0x2028 || c.toNat == 0x2029 then some (charBytes c, next rest 1)
    else some ([], r)
  | [] => some ([], r)

/-- Passes over a line break. -/
def skipLineBreak (r : Reader) : Option Reader := do
  let (_, r) ← r.readLineBreak
  some r

/-- Passes over the line break at the end of a line, if the stream does not end there. -/
def endLine (r : Reader) : Option Reader := if r.atLineBreak then r.skipLineBreak else some r

/-- Reads characters with a property, none of which is a line break; `acc` holds their bytes in reverse. -/
def readWhileFrom (p : Char → Bool) : Nat → Text → Reader → Option (Text × Reader)
  | 0, acc, r => some (acc.reverse, r)
  | n + 1, acc, r =>
    match r.peek? with
    | none => some (acc.reverse, r)
    | some c =>
      if p c then do
        let r ← r.advance
        readWhileFrom p n ((charBytes c).reverse ++ acc) r
      else some (acc.reverse, r)

/-- Reads characters with a property, none of which is a line break. -/
def readWhile (p : Char → Bool) (r : Reader) : Option (Text × Reader) := do
  let r ← r.ask 1
  readWhileFrom p r.bound [] r

/-- Passes over characters with a property, none of which is a line break. -/
def skipWhile (p : Char → Bool) (r : Reader) : Option Reader := do
  let (_, r) ← r.readWhile p
  some r

def skipBlanks (r : Reader) : Option Reader := r.skipWhile isSpaceOrTab

/-- Passes over what is left of a line. -/
def skipLine (r : Reader) : Option Reader := r.skipWhile fun c => !isLineBreak c

/-! Comments -/

/-- Comments are looked for at distances below this one. -/
def commentReach : Nat := 512

/-- A line break of several bytes. Nothing is looked for behind it. -/
def isWideBreak (c : Char) : Bool := isLineBreak c && 0x80 ≤ c.toNat

/-- Looks for a comment behind characters of a gap, from a distance on, and gives its distance. -/
def findComment (gap : Char → Bool) : Nat → Nat → Reader → Option (Option Nat × Reader)
  | 0, _, r => some (none, r)
  | steps + 1, n, r => do
    let r ← r.ask (n + 1)
    let hidden := n != 0 && (r.peekAt? (n - 1)).any isWideBreak
    if hidden then some (none, r)
    else if r.peekAt? n == some '#' then some (some n, r)
    else if (r.peekAt? n).any gap then findComment gap steps (n + 1) r
    else some (none, r)

/-- Passes over everything up to an index, and over what is left of the line there. -/
def skipLineFrom (index : Nat) : Nat → Reader → Option Reader
  | 0, r => some r
  | steps + 1, r => do
    let r ← r.ask 1
    if r.atLineEnd then
      if index ≤ r.mark.index then some r
      else
        let r ← r.skipLineBreak
        skipLineFrom index steps r
    else skipLineFrom index steps r.skip

/-- Passes over a comment, and over those that follow it with nothing but blanks and line breaks between. -/
def skipComments : Nat → Nat → Reader → Option Reader
  | 0, _, r => some r
  | steps + 1, n, r => do
    let r ← r.skipLineFrom (r.mark.index + n) (r.bound + 1)
    match ← findComment (fun c => isSpaceOrTab c || isLineBreak c) (commentReach - 1) 1 r with
    | (some n, r) => skipComments steps n r
    | (none, r) => some r

/-- Passes over a comment that stands on the line of the character passed over last. -/
def skipLineComment (r : Reader) : Option Reader :=
  if r.newlines = 0 then do
    match ← findComment isSpaceOrTab commentReach 0 r with
    | (some _, r) => r.skipLine
    | (none, r) => some r
  else some r

/-- The reader stands at one of the marks that divide documents. -/
def atDocumentMark (c : Char) (r : Reader) : Bool :=
  r.mark.column == 0 && r.sees c && r.peekAt? 1 == some c && r.peekAt? 2 == some c && r.endsWordAt 3

end Reader

end SignalAudit.Yaml
