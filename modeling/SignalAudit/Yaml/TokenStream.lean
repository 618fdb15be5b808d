import Std.Data.HashMap
import SignalAudit.Yaml.Lexeme

/-!
The tokens of a YAML stream, read on demand. In block context indentation opens and closes collections. A key need
not be marked: whatever may be one is remembered, and when a colon follows it on its line, the key's token is put in
front of it. So tokens wait in a queue until it is decided whether the first of them begins a key.
-/

namespace SignalAudit.Yaml

/-- Where an unmarked key may begin. -/
structure KeyStart where
  possible : Bool := false
  /-- Something must begin here, and it can only be a key. -/
  required : Bool := false
  /-- The number of the token, counted from the beginning of the stream. -/
  number : Nat := 0
  mark : Mark := {}
  deriving Repr, DecidableEq

structure TokenStream where
  reader : Reader
  started : Bool := false
  /-- Tokens read and not yet taken. -/
  queue : List Token := []
  /-- The number of tokens taken. -/
  taken : Nat := 0
  /-- The column of the innermost block collection. -/
  indent : Int := -1
  /-- The columns of those around it. -/
  indents : List Int := []
  /-- The last possible key of each level of flow collections, the outermost first. -/
  keys : Array KeyStart := #[]
  /-- The levels by the numbers of the tokens with which their possible keys begin. -/
  pending : Std.HashMap Nat Nat := {}
  /-- An unmarked key may begin here. -/
  keyAllowed : Bool := true

namespace TokenStream

/-- The nesting of flow collections. -/
def flowLevel (s : TokenStream) : Nat := s.keys.size - 1

def inFlow (s : TokenStream) : Bool := decide (0 < s.flowLevel)

/-- The last possible key of the innermost level. -/
def key (s : TokenStream) : KeyStart := s.keys[s.flowLevel]?.getD {}

def setKey (s : TokenStream) (level : Nat) (k : KeyStart) : TokenStream :=
  { s with keys := s.keys.setIfInBounds level k }

/-- The deepest nesting of collections. -/
def maxDepth : Nat := 10000

def append (s : TokenStream) (t : Token) : TokenStream := { s with queue := s.queue ++ [t] }

/-- Puts a token in front of the one with the given number; a number that is taken puts it at the end. -/
def insert (s : TokenStream) (number : Int) (t : Token) : TokenStream :=
  if number < s.taken then s.append t
  else
    let position := (number - s.taken).toNat
    { s with queue := s.queue.take position ++ t :: s.queue.drop position }

/-- The number of the token that is read next. -/
def nextNumber (s : TokenStream) : Nat := s.taken + s.queue.length

/-- Settles whether the possible key of a level still is one. It is one as long as the line lasts, for a limited number
of characters; after that it is given up. -/
def settleKey (s : TokenStream) (level : Nat) : Option (Bool × TokenStream) :=
  match s.keys[level]? with
  | none => some (false, s)
  | some k =>
    if !k.possible then some (false, s)
    else if k.mark.line < s.reader.mark.line || k.mark.index + 1024 < s.reader.mark.index then
      if k.required then none else some (false, s.setKey level { k with possible := false })
    else some (true, s)

/-- Forgets that a key may begin with a token. -/
def forget (s : TokenStream) (number : Nat) : TokenStream := { s with pending := s.pending.erase number }

/-- Gives up the possible key of the innermost level. -/
def dropKey (s : TokenStream) : Option TokenStream :=
  let k := s.key
  if k.possible then
    if k.required then none else some ((s.setKey s.flowLevel { k with possible := false }).forget k.number)
  else some s

/-- Remembers that a key may begin with the next token. -/
def saveKey (s : TokenStream) : Option TokenStream :=
  if s.keyAllowed then do
    let required := !s.inFlow && s.indent == s.reader.mark.column
    let k : KeyStart := ⟨true, required, s.nextNumber, s.reader.mark⟩
    let s ← s.dropKey
    let s := s.setKey s.flowLevel k
    some { s with pending := s.pending.insert k.number s.flowLevel }
  else some s

/-- Opens a block collection if the column is deeper than the present one. -/
def openBlock (s : TokenStream) (column : Int) (number : Option Nat) (kind : TokenKind) (mark : Mark) :
    Option TokenStream :=
  if s.inFlow || column ≤ s.indent then some s
  else if maxDepth ≤ s.indents.length then none
  else
    let s := { s with indents := s.indent :: s.indents, indent := column }
    let t : Token := ⟨kind, mark, mark⟩
    some (match number with
      | none => s.append t
      | some n => s.insert n t)

/-- Closes the block collections that are deeper than a column. -/
def closeTo (column : Int) (mark : Mark) : List Int → TokenStream → TokenStream
  | [], s => s
  | outer :: indents, s =>
    if column < s.indent then
      closeTo column mark indents { s.append ⟨.blockEnd, mark, mark⟩ with indent := outer, indents := indents }
    else s

def closeBlocks (s : TokenStream) (column : Int) : TokenStream :=
  if s.inFlow then s else closeTo column s.reader.mark s.indents s

/-- Appends a token that ends where the reader stands after it. -/
def emit (s : TokenStream) (kind : TokenKind) (after : Reader) : TokenStream :=
  { s.append ⟨kind, s.reader.mark, after.mark⟩ with reader := after }

/-- Passes over blanks, line breaks and comments. Tabs do not count as blanks where a block key may begin. As long as
the window began with a byte order mark, one character is passed over at the beginning of each line. -/
def skipToToken (flow : Bool) : Nat → Bool → Reader → Option (Bool × Reader)
  | 0, keyAllowed, r => some (keyAllowed, r)
  | n + 1, keyAllowed, r => do
    let r ← r.ask 1
    let r := if r.mark.column == 0 && r.marked then r.skip else r
    let r ← r.skipWhile fun c => c == ' ' || ((flow || !keyAllowed) && c == '\t')
    let r ← if r.sees '#' then r.skipComments (r.bound + 1) 0 else some r
    if r.atLineBreak then
      let r ← r.skipLineBreak
      skipToToken flow n (keyAllowed || !flow) r
    else some (keyAllowed, r)

/-- Passes over a comment on the line of the token just read, unless the token begins an entry. -/
def skipLineComment (s : TokenStream) : Option TokenStream :=
  if s.queue.getLast?.any (·.kind != .blockEntry) then do
    let r ← s.reader.skipLineComment
    some { s with reader := r }
  else some s

def fetchStreamEnd (s : TokenStream) : Option TokenStream := do
  let mark := s.reader.mark
  let mark := if mark.column = 0 then mark else { mark with column := 0, line := mark.line + 1 }
  let s ← ({ s with reader := { s.reader with mark } }.closeBlocks (-1)).dropKey
  some { s.append ⟨.streamEnd, mark, mark⟩ with keyAllowed := false }

def fetchDirective (s : TokenStream) : Option TokenStream := do
  let s ← (s.closeBlocks (-1)).dropKey
  let (kind, r) ← readDirective s.reader
  some ({ s with keyAllowed := false }.emit kind r)

def fetchDocumentMark (s : TokenStream) (kind : TokenKind) : Option TokenStream := do
  let s ← (s.closeBlocks (-1)).dropKey
  some ({ s with keyAllowed := false }.emit kind (s.reader.skipMany 3))

def fetchFlowStart (s : TokenStream) (kind : TokenKind) : Option TokenStream := do
  let s ← s.saveKey
  let level : KeyStart := { number := s.nextNumber, mark := s.reader.mark }
  if maxDepth ≤ s.flowLevel then none
  else some ({ s with keys := s.keys.push level, keyAllowed := true }.emit kind s.reader.skip)

def fetchFlowEnd (s : TokenStream) (kind : TokenKind) : Option TokenStream := do
  let s ← s.dropKey
  let s := if s.inFlow then { s.forget s.key.number with keys := s.keys.pop } else s
  some ({ s with keyAllowed := false }.emit kind s.reader.skip)

def fetchFlowEntry (s : TokenStream) : Option TokenStream := do
  let s ← s.dropKey
  some ({ s with keyAllowed := true }.emit .flowEntry s.reader.skip)

def fetchBlockEntry (s : TokenStream) : Option TokenStream := do
  if !s.inFlow && !s.keyAllowed then none
  else
    let s ← s.openBlock s.reader.mark.column none .blockSequenceStart s.reader.mark
    let s ← s.dropKey
    some ({ s with keyAllowed := true }.emit .blockEntry s.reader.skip)

def fetchKey (s : TokenStream) : Option TokenStream := do
  if !s.inFlow && !s.keyAllowed then none
  else
    let s ← s.openBlock s.reader.mark.column none .blockMappingStart s.reader.mark
    let s ← s.dropKey
    some ({ s with keyAllowed := !s.inFlow }.emit .key s.reader.skip)

def fetchValue (s : TokenStream) : Option TokenStream := do
  let (found, s) ← s.settleKey s.flowLevel
  if found then
    let k := s.key
    let s := s.insert k.number ⟨.key, k.mark, k.mark⟩
    let s ← s.openBlock k.mark.column (some k.number) .blockMappingStart k.mark
    let s := (s.setKey s.flowLevel { k with possible := false }).forget k.number
    let s := { s with keyAllowed := false }
    some (s.emit .value s.reader.skip)
  else if !s.inFlow && !s.keyAllowed then none
  else
    let s ← s.openBlock s.reader.mark.column none .blockMappingStart s.reader.mark
    some ({ s with keyAllowed := !s.inFlow }.emit .value s.reader.skip)

/-- Appends the token of a reading that may be a key. -/
def fetchKeyed (s : TokenStream) (read : Reader → Option (TokenKind × Reader)) : Option TokenStream := do
  let s ← s.saveKey
  let (kind, r) ← read s.reader
  some ({ s with keyAllowed := false }.emit kind r)

def fetchBlockScalar (s : TokenStream) (literal : Bool) : Option TokenStream := do
  let s ← s.dropKey
  let (value, r) ← readBlock literal s.indent s.reader
  some ({ s with keyAllowed := true }.emit (.scalar value false) r)

def fetchPlain (s : TokenStream) : Option TokenStream := do
  let s ← s.saveKey
  let (value, broken, r) ← readPlain s.inFlow (s.indent + 1) s.reader
  some ({ s with keyAllowed := broken }.emit (.scalar value true) r)

/-- A character that can begin a plain scalar. -/
def startsPlain (s : TokenStream) (c : Char) : Bool :=
  let r := s.reader
  if c == '-' then !(r.peekAt? 1).any isSpaceOrTab
  else if c == '?' || c == ':' then !s.inFlow && !r.endsWordAt 1
  else !(r.atWordEnd || ",[]\x7b\x7d#&*!|>'\"%@\x60".toList.contains c)

/-- Reads the token that begins with a character. -/
def fetchAt (s : TokenStream) (c : Char) : Option TokenStream :=
  let r := s.reader
  if c == '[' then s.fetchFlowStart .flowSequenceStart
  else if c == '\x7b' then s.fetchFlowStart .flowMappingStart
  else if c == ']' then s.fetchFlowEnd .flowSequenceEnd
  else if c == '\x7d' then s.fetchFlowEnd .flowMappingEnd
  else if c == ',' then s.fetchFlowEntry
  else if c == '-' && r.endsWordAt 1 then s.fetchBlockEntry
  else if c == '?' && (s.inFlow || r.endsWordAt 1) then s.fetchKey
  else if c == ':' && (s.inFlow || r.endsWordAt 1) then s.fetchValue
  else if c == '*' then s.fetchKeyed fun r => (readAnchor r).map fun (name, r) => (.reference name, r)
  else if c == '&' then s.fetchKeyed fun r => (readAnchor r).map fun (name, r) => (.anchor name, r)
  else if c == '!' then s.fetchKeyed readTag
  else if c == '|' && !s.inFlow then s.fetchBlockScalar true
  else if c == '>' && !s.inFlow then s.fetchBlockScalar false
  else if c == '\'' then s.fetchKeyed fun r => (readQuoted true r).map fun (value, r) => (.scalar value false, r)
  else if c == '"' then s.fetchKeyed fun r => (readQuoted false r).map fun (value, r) => (.scalar value false, r)
  else if s.startsPlain c then s.fetchPlain
  else none

/-- Reads one more token, and the ends of block collections before it. -/
def fetch (s : TokenStream) : Option TokenStream := do
  let r ← s.reader.ask 1
  if !s.started then
    some { s.append ⟨.streamStart, r.mark, r.mark⟩ with reader := r, started := true, keys := #[{}] }
  else
    let (keyAllowed, r) ← skipToToken s.inFlow (r.bound + 1) s.keyAllowed r
    let s := { s with keyAllowed, reader := r }.closeBlocks r.mark.column
    let r ← r.ask 4
    let s := { s with reader := r }
    match r.peek? with
    | none => s.fetchStreamEnd
    | some c =>
      if r.mark.column = 0 && c == '%' then s.fetchDirective
      else if r.atDocumentMark '-' then s.fetchDocumentMark .documentStart
      else if r.atDocumentMark '.' then s.fetchDocumentMark .documentEnd
      else
        let s ← s.fetchAt c
        s.skipLineComment

/-- Settles whether more tokens must be read before the first can be taken: there are always two behind it, and it must
be clear whether it begins a key. -/
def needsMore (s : TokenStream) : Option (Bool × TokenStream) :=
  if s.queue.length < 3 then some (true, s)
  else
    match s.pending[s.taken]? with
    | none => some (false, s)
    | some level => s.settleKey level

/-- Reads tokens until the first can be taken. -/
def fill : Nat → TokenStream → Option TokenStream
  | 0, s => some s
  | n + 1, s => do
    let (more, s) ← s.needsMore
    if more then
      let s ← s.fetch
      fill n s
    else some s

/-- The first token, and the stream in front of it. -/
def peek? (s : TokenStream) : Option (Token × TokenStream) := do
  let s ← fill (s.reader.bound + 8) s
  let t ← s.queue.head?
  some (t, s)

/-- Takes the first token. -/
def drop (s : TokenStream) : TokenStream := { s with queue := s.queue.tail, taken := s.taken + 1 }

def ofText (bytes : Text) : TokenStream := { reader := .ofText bytes }

end TokenStream

end SignalAudit.Yaml
