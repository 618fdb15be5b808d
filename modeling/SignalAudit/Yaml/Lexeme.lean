import SignalAudit.Yaml.Token

/-!
The readings that make up single tokens: directives, anchors, tags and scalars. Each takes the reader at the first
character of the token and gives the reader after it, or nothing where the stream is malformed. How many characters a
reading asks for is part of what it does: what it never asks for may be undecodable.
-/

namespace SignalAudit.Yaml

/-! Tags and anchors -/

/-- A character that may stand in a tag as it is. -/
def isUriChar (c : Char) : Bool := isWordChar c || ";/?:@&=+$,.!~*'()[]".toList.contains c

def isHexDigit (c : Char) : Bool := c.isDigit || ('a' ≤ c && c ≤ 'f') || ('A' ≤ c && c ≤ 'F')

def hexValue (c : Char) : Nat :=
  if c.isDigit then c.toNat - 0x30
  else if 'a' ≤ c then c.toNat - 0x61 + 10
  else c.toNat - 0x41 + 10

/-- An octet written as a percent sign and two digits. -/
def readOctet (r : Reader) : Option (UInt8 × Reader) := do
  let r ← r.ask 3
  match r.ahead with
  | '%' :: a :: b :: _ =>
    if isHexDigit a && isHexDigit b then some ((hexValue a * 16 + hexValue b).toUInt8, r.skipMany 3) else none
  | _ => none

/-- The octets that continue an encoded character. -/
def readTrailingOctets : Nat → Text → Reader → Option (Text × Reader)
  | 0, acc, r => some (acc, r)
  | n + 1, acc, r => do
    let (octet, r) ← readOctet r
    if octet / 64 = 2 then readTrailingOctets n (acc ++ [octet]) r else none

/-- One character written in octets. -/
def readEscapedOctets (r : Reader) : Option (Text × Reader) := do
  let (octet, r) ← readOctet r
  match announcedWidth octet with
  | 0 => none
  | width + 1 => readTrailingOctets width [octet] r

/-- The characters of a tag, escapes decoded. -/
def readUriFrom : Nat → Text → Reader → Option (Text × Reader)
  | 0, acc, r => some (acc, r)
  | n + 1, acc, r => do
    let r ← r.ask 1
    match r.peek? with
    | some '%' => do
      let (bytes, r) ← readEscapedOctets r
      readUriFrom n (acc ++ bytes) r
    | some c => if isUriChar c then readUriFrom n (acc ++ charBytes c) r.skip else some (acc, r)
    | none => some (acc, r)

/-- A tag's characters, which may be none only after a part already read. -/
def readUri (already : Bool) (acc : Text) (r : Reader) : Option (Text × Reader) := do
  let (uri, next) ← readUriFrom (r.bound + 1) acc r
  if already || r.mark.index != next.mark.index then some (uri, next) else none

/-- An exclamation mark, word characters, and another exclamation mark if there is one. -/
def readHandle (r : Reader) : Option (Text × Reader) := do
  let r ← r.ask 1
  if r.sees '!' then
    let (word, r) ← r.skip.readWhile isWordChar
    if r.sees '!' then some (text "!" ++ word ++ text "!", r.skip) else some (text "!" ++ word, r)
  else none

/-- A text of at least two bytes that ends in an exclamation mark. -/
def isHandle (t : Text) : Bool := decide (1 < t.length) && t.getLast? == some 0x21

/-- The handle and suffix of a tag that is not written out in brackets. -/
def readShorthand (r : Reader) : Option (TokenKind × Reader) := do
  let (handle, r) ← readHandle r
  if isHandle handle then
    let (suffix, r) ← readUri false [] r
    some (.tag handle suffix, r)
  else
    let (suffix, r) ← readUri true handle.tail r
    if suffix.isEmpty then some (.tag [] (text "!"), r) else some (.tag (text "!") suffix, r)

def readTag (r : Reader) : Option (TokenKind × Reader) := do
  let r ← r.ask 2
  let (kind, r) ←
    if r.peekAt? 1 == some '<' then do
      let (uri, r) ← readUri false [] (r.skipMany 2)
      if r.sees '>' then some (TokenKind.tag [] uri, r.skip) else none
    else readShorthand r
  let r ← r.ask 1
  if r.atWordEnd then some (kind, r) else none

/-- The name of an anchor or alias. -/
def readAnchor (r : Reader) : Option (Text × Reader) := do
  let (name, r) ← r.skip.readWhile isWordChar
  if name.isEmpty then none
  else if r.atWordEnd || r.peek?.any "?:,]\x7d%@\x60".toList.contains then some (name, r)
  else none

/-! Directives -/

/-- A version number of at most two digits; `acc` holds the value of those read. -/
def readVersionDigits : Nat → Option Nat → Reader → Option (Nat × Reader)
  | digits, acc, r =>
    match r.peek? with
    | some c =>
      if c.isDigit then
        match digits with
        | 0 => none
        | digits + 1 => do
          let r ← r.advance
          readVersionDigits digits (some (acc.getD 0 * 10 + (c.toNat - 0x30))) r
      else acc.map fun n => (n, r)
    | none => acc.map fun n => (n, r)

def readVersionNumber (r : Reader) : Option (Nat × Reader) := do
  let r ← r.ask 1
  readVersionDigits 2 none r

def readVersion (r : Reader) : Option (TokenKind × Reader) := do
  let r ← r.skipBlanks
  let (major, r) ← readVersionNumber r
  if r.sees '.' then
    let (minor, r) ← readVersionNumber r.skip
    some (.versionDirective major minor, r)
  else none

def readTagDirective (r : Reader) : Option (TokenKind × Reader) := do
  let r ← r.skipBlanks
  let (handle, r) ← readHandle r
  if isHandle handle || handle == text "!" then
    let r ← r.ask 1
    if r.atBlank then
      let r ← r.skipBlanks
      let (expansion, r) ← readUri false [] r
      if r.atWordEnd then some (.tagDirective handle expansion, r) else none
    else none
  else none

/-- Passes over blanks and a comment up to the end of a line, and over the line break. -/
def finishLine (r : Reader) : Option Reader := do
  let r ← r.skipBlanks
  let r ← if r.sees '#' then r.skipLine else some r
  if r.atLineEnd then r.endLine else none

def readDirective (r : Reader) : Option (TokenKind × Reader) := do
  let (name, r) ← r.skip.readWhile isWordChar
  if name.isEmpty || !r.atWordEnd then none
  else
    let (kind, r) ←
      if name == text "YAML" then readVersion r
      else if name == text "TAG" then readTagDirective r
      else none
    let r ← finishLine r
    some (kind, r)

/-! Scalars over several lines -/

/-- A scalar while it is read; `out` holds its bytes in reverse. -/
structure Folded where
  reader : Reader
  out : Text := []
  /-- Blanks that belong to the scalar only if more of it follows on the line. -/
  blanks : Text := []
  /-- The first line break after the last word, and those after it. -/
  firstBreak : Text := []
  moreBreaks : Text := []
  /-- A line break follows the last word. -/
  broken : Bool := false

namespace Folded

def push (f : Folded) (bytes : Text) : Folded := { f with out := bytes.reverse ++ f.out }

/-- A single newline is a space, of several the first is dropped; other line breaks stay. -/
def joinBreaks (f : Folded) : Text :=
  if f.firstBreak.head? == some 0x0A then
    if f.moreBreaks.isEmpty then text " " else f.moreBreaks
  else f.firstBreak ++ f.moreBreaks

/-- Puts what stands between two words into the scalar. -/
def join (f : Folded) : Folded :=
  if f.broken then { f.push f.joinBreaks with firstBreak := [], moreBreaks := [], broken := false, blanks := [] }
  else { f.push f.blanks with blanks := [] }

/-- Takes a blank. -/
def addBlank (f : Folded) : Option Folded := do
  let r ← f.reader.advance
  if f.broken then some { f with reader := r }
  else some { f with blanks := f.blanks ++ (f.reader.ahead.take 1).flatMap charBytes, reader := r }

/-- Takes a line break. -/
def addBreak (f : Folded) : Option Folded := do
  let (bytes, r) ← f.reader.readLineBreak
  let r ← r.ask 1
  if f.broken then some { f with moreBreaks := f.moreBreaks ++ bytes, reader := r }
  else some { f with firstBreak := bytes, blanks := [], broken := true, reader := r }

/-- Takes a character as it is. -/
def addChar (f : Folded) (c : Char) : Option Folded := do
  let r ← f.reader.skip.ask 2
  some { f.push (charBytes c) with reader := r }

end Folded

/-! Plain scalars -/

/-- A character that ends a plain scalar. -/
def endsPlain (flow : Bool) (r : Reader) (c : Char) : Bool :=
  (c == ':' && r.endsWordAt 1) || (flow && ",?[]\x7b\x7d".toList.contains c)

/-- Takes the characters of a word. -/
def plainWord (flow : Bool) : Nat → Folded → Option Folded
  | 0, f => some f
  | n + 1, f =>
    match f.reader.peek? with
    | none => some f
    | some c =>
      if isSpaceOrTab c || isLineBreak c || endsPlain flow f.reader c then some f
      else do
        let f ← f.join.addChar c
        plainWord flow n f

/-- Takes blanks and line breaks; a tab must not stand in the indentation. -/
def plainGap (indent : Int) : Nat → Folded → Option Folded
  | 0, f => some f
  | n + 1, f =>
    if f.reader.atBlank then
      if f.broken && decide ((f.reader.mark.column : Int) < indent) && f.reader.sees '\t' then none
      else do
        let f ← f.addBlank
        plainGap indent n f
    else if f.reader.atLineBreak then do
      let f ← f.addBreak
      plainGap indent n f
    else some f

/-- Words and gaps, up to the end of a plain scalar. -/
def plainFrom (flow : Bool) (indent : Int) : Nat → Folded → Option Folded
  | 0, f => some f
  | n + 1, f => do
    let r ← f.reader.ask 4
    if r.atDocumentMark '-' || r.atDocumentMark '.' || r.sees '#' then some { f with reader := r }
    else
      let f ← plainWord flow r.bound { f with reader := r }
      if f.reader.atBlank || f.reader.atLineBreak then do
        let f ← plainGap indent (f.reader.bound + 1) f
        if !flow && decide ((f.reader.mark.column : Int) < indent) then some f else plainFrom flow indent n f
      else some f

/-- A plain scalar, whether a line break follows it, and the reader after that. -/
def readPlain (flow : Bool) (indent : Int) (r : Reader) : Option (Text × Bool × Reader) := do
  let f ← plainFrom flow indent (r.bound + 1) { reader := r }
  some (f.out.reverse, f.broken, f.reader)

/-! Quoted scalars -/

/-- What a letter after a backslash stands for. -/
def escapedChar? : Char → Option Text
  | '0' => some [0x00]
  | 'a' => some [0x07]
  | 'b' => some [0x08]
  | 't' | '\t' => some [0x09]
  | 'n' => some [0x0A]
  | 'v' => some [0x0B]
  | 'f' => some [0x0C]
  | 'r' => some [0x0D]
  | 'e' => some [0x1B]
  | ' ' => some [0x20]
  | '"' => some [0x22]
  | '\'' => some [0x27]
  | '\\' => some [0x5C]
  | 'N' => some (Text.encode 0x85)
  | '_' => some (Text.encode 0xA0)
  | 'L' => some (Text.encode 0x2028)
  | 'P' => some (Text.encode 0x2029)
  | _ => none

/-- The number of digits after a letter that announces a code point. -/
def codeDigits? : Char → Option Nat
  | 'x' => some 2
  | 'u' => some 4
  | 'U' => some 8
  | _ => none

/-- A code point given by its digits. -/
def readCode (digits : Nat) (r : Reader) : Option (Text × Reader) := do
  let r ← r.ask digits
  let found := r.ahead.take digits
  if found.length = digits && found.all isHexDigit then
    let code := found.foldl (fun n c => n * 16 + hexValue c) 0
    if (0xD800 ≤ code && code ≤ 0xDFFF) || 0x10FFFF < code then none
    else some (Text.encode code, r.skipMany digits)
  else none

/-- An escape sequence, from its backslash. -/
def readEscape (r : Reader) : Option (Text × Reader) := do
  let c ← r.peekAt? 1
  match codeDigits? c with
  | some digits => readCode digits (r.skipMany 2)
  | none =>
    let bytes ← escapedChar? c
    some (bytes, r.skipMany 2)

/-- A line break behind a backslash, from the backslash. -/
def skipEscapedBreak (r : Reader) : Option Reader := do
  let r ← r.ask 3
  r.skip.skipLineBreak

/-- Takes the characters of a word in quotes, up to the closing quote, a blank or a line end. A backslash at the
end of a line joins it with the next. -/
def quotedWord (single : Bool) : Nat → Folded → Option Folded
  | 0, f => some f
  | n + 1, f =>
    let r := f.reader
    match r.peek? with
    | none => some f
    | some c =>
      if isSpaceOrTab c || isLineBreak c then some f
      else if single then
        if c == '\'' then
          if r.peekAt? 1 == some '\'' then do
            let r ← (r.skipMany 2).ask 2
            quotedWord single n { f.push (text "'") with reader := r }
          else some f
        else do
          let f ← f.addChar c
          quotedWord single n f
      else if c == '"' then some f
      else if c == '\\' then
        if (r.peekAt? 1).any isLineBreak then do
          let r ← skipEscapedBreak r
          some { f with reader := r, broken := true }
        else do
          let (bytes, r) ← readEscape r
          let r ← r.ask 2
          quotedWord single n { f.push bytes with reader := r }
      else do
        let f ← f.addChar c
        quotedWord single n f

/-- Takes blanks and line breaks. -/
def quotedGap : Nat → Folded → Option Folded
  | 0, f => some f
  | n + 1, f =>
    if f.reader.atBlank then do
      let f ← f.addBlank
      quotedGap n f
    else if f.reader.atLineBreak then do
      let f ← f.addBreak
      quotedGap n f
    else some f

/-- Words and gaps, up to the closing quote. -/
def quotedFrom (single : Bool) : Nat → Folded → Option Folded
  | 0, _ => none
  | n + 1, f => do
    let r ← f.reader.ask 4
    if r.atDocumentMark '-' || r.atDocumentMark '.' || r.atEnd then none
    else
      let f ← quotedWord single r.bound { f with reader := r }
      let r ← f.reader.ask 1
      if r.sees (if single then '\'' else '"') then some { f with reader := r.skip }
      else
        let f ← quotedGap (r.bound + 1) { f with reader := r }
        quotedFrom single n f.join

/-- A scalar in quotes. -/
def readQuoted (single : Bool) (r : Reader) : Option (Text × Reader) := do
  let f ← quotedFrom single (r.bound + 1) { reader := r.skip }
  some (f.out.reverse, f.reader)

/-! Block scalars -/

/-- What becomes of the line breaks at the end of a block scalar. -/
inductive Chomping where
  | clip
  | strip
  | keep
  deriving Repr, DecidableEq

def readChomping (r : Reader) : Option (Chomping × Reader) := do
  let r ← r.ask 1
  if r.sees '+' then some (.keep, r.skip)
  else if r.sees '-' then some (.strip, r.skip)
  else some (.clip, r)

/-- An indentation given by a digit other than zero; zero stands for none. -/
def readIncrement (r : Reader) : Option (Nat × Reader) := do
  let r ← r.ask 1
  match r.peek? with
  | some '0' => none
  | some c => if c.isDigit then some (c.toNat - 0x30, r.skip) else some (0, r)
  | none => some (0, r)

/-- The indicators of a block scalar in either order. -/
def readBlockHeader (r : Reader) : Option (Chomping × Nat × Reader) := do
  match ← readChomping r with
  | (.clip, r) =>
    let (increment, r) ← readIncrement r
    if increment = 0 then some (.clip, 0, r)
    else
      let (chomping, r) ← readChomping r
      some (chomping, increment, r)
  | (chomping, r) =>
    let (increment, r) ← readIncrement r
    some (chomping, increment, r)

/-- Empty lines and indentation; `indent` is zero as long as it is not known. Gives the line breaks and the greatest
column met. -/
def blockGap (indent : Int) : Nat → Nat → Text → Reader → Option (Nat × Text × Reader)
  | 0, widest, breaks, r => some (widest, breaks, r)
  | n + 1, widest, breaks, r => do
    let r ← r.ask 1
    let inside := indent == 0 || decide ((r.mark.column : Int) < indent)
    if r.sees ' ' && inside then blockGap indent n widest breaks r.skip
    else
      let widest := max widest r.mark.column
      if inside && r.sees '\t' then none
      else if r.atLineBreak then
        let (bytes, r) ← r.readLineBreak
        blockGap indent n widest (breaks ++ bytes) r
      else some (widest, breaks, r)

/-- Empty lines before a line of a block scalar, and the indentation of the scalar, found out if it is not known. -/
def readBlockGap (outer indent : Int) (r : Reader) : Option (Int × Text × Reader) := do
  let (widest, breaks, r) ← blockGap indent (r.bound + 1) 0 [] r
  let indent := if indent = 0 then max (max (widest : Int) (outer + 1)) 1 else indent
  some (indent, breaks, r)

/-- A block scalar while it is read; `out` holds its bytes in reverse. -/
structure Block where
  reader : Reader
  out : Text := []
  lineBreak : Text := []
  emptyLines : Text := []
  /-- The last line began with a blank. -/
  afterBlank : Bool := false

/-- The lines of a block scalar. In a folded one a newline between two lines that do not begin with blanks is a space,
or nothing if empty lines follow it. -/
def blockLines (literal : Bool) (outer indent : Int) : Nat → Block → Option Block
  | 0, b => some b
  | n + 1, b =>
    if (b.reader.mark.column : Int) = indent && !b.reader.atEnd then do
      let blank := b.reader.atBlank
      let between :=
        if !literal && !b.afterBlank && !blank && b.lineBreak.head? == some 0x0A then
          if b.emptyLines.isEmpty then text " " else []
        else b.lineBreak
      let (line, r) ← b.reader.readWhile fun c => !isLineBreak c
      let (lineBreak, r) ← r.readLineBreak
      let (_, emptyLines, r) ← readBlockGap outer indent r
      let out := line.reverse ++ b.emptyLines.reverse ++ between.reverse ++ b.out
      blockLines literal outer indent n ⟨r, out, lineBreak, emptyLines, blank⟩
    else some b

/-- A block scalar, from its indicator; `outer` is the indentation of what it stands in. -/
def readBlock (literal : Bool) (outer : Int) (r : Reader) : Option (Text × Reader) := do
  let (chomping, increment, r) ← readBlockHeader r.skip
  let r ← finishLine r
  let given : Int := if increment = 0 then 0 else (if 0 ≤ outer then outer else 0) + increment
  let (indent, emptyLines, r) ← readBlockGap outer given r
  let b ← blockLines literal outer indent (r.bound + 1) { reader := r, emptyLines }
  let tail := match chomping with
    | .strip => []
    | .clip => b.lineBreak
    | .keep => b.lineBreak ++ b.emptyLines
  some (b.out.reverse ++ tail, b.reader)

end SignalAudit.Yaml
