import SignalAudit.Text.Quoted

/-!
The words of a command line. Flags and arguments may be mixed; two dashes end the flags, and a single dash is an
argument. A flag that is given again is given its last value.
-/

namespace SignalAudit

inductive Flag where
  | config
  | countInfo
  | help
  | includeCompat
  | logLevel
  | marker
  | version
  deriving Repr, DecidableEq

namespace Flag

def all : List Flag := [config, countInfo, help, includeCompat, logLevel, marker, version]

def name : Flag → Text
  | config => text "config"
  | countInfo => text "count-info"
  | help => text "help"
  | includeCompat => text "include-compat"
  | logLevel => text "log-level"
  | marker => text "marker"
  | version => text "version"

/-- The letter that stands for a flag behind a single dash. -/
def letter? : Flag → Option UInt8
  | help => some 0x68
  | version => some 0x76
  | _ => none

/-- A switch is on when it stands without a value; other flags need one. -/
def isSwitch : Flag → Bool
  | countInfo | help | includeCompat | version => true
  | config | logLevel | marker => false

def ofName? (t : Text) : Option Flag := all.find? fun f => f.name == t

def ofLetter? (b : UInt8) : Option Flag := all.find? fun f => f.letter? == some b

/-- A flag in all its spellings. -/
def spelling (f : Flag) : Text :=
  match f.letter? with
  | some b => text "-" ++ [b] ++ text ", --" ++ f.name
  | none => text "--" ++ f.name

end Flag

/-- Why a command line cannot be read. -/
inductive FlagError where
  | badForm (word : Text)
  | unknown (name : Text)
  /-- The letters are those from the unknown one to the end of the word. -/
  | unknownLetter (letter : UInt8) (letters : Text)
  | noValue (flag : Flag)
  | badSwitch (flag : Flag) (value : Text)
  deriving Repr, DecidableEq

def FlagError.message : FlagError → Text
  | badForm word => text "bad flag syntax: " ++ word
  | unknown name => text "unknown flag: --" ++ name
  | unknownLetter letter letters =>
    text "unknown shorthand flag: " ++ Text.quoteCode letter.toNat ++ text " in -" ++ letters
  | noValue flag => text "flag needs an argument: --" ++ flag.name
  | badSwitch flag value =>
    text "invalid argument " ++ Text.quote value ++ text " for " ++ Text.quote flag.spelling ++
      text " flag: strconv.ParseBool: parsing " ++ Text.quote value ++ text ": invalid syntax"

/-- What a command line says. -/
structure Invocation where
  config : Text := []
  logLevel : Option Text := none
  marker : Option Text := none
  includeCompat : Option Bool := none
  countInfo : Option Bool := none
  help : Bool := false
  version : Bool := false
  arguments : List Text := []
  deriving Repr, DecidableEq

namespace Invocation

/-- The values of a switch. -/
def switchWords : List (Text × Bool) := [
  (text "1", true), (text "t", true), (text "T", true),
  (text "TRUE", true), (text "true", true), (text "True", true),
  (text "0", false), (text "f", false), (text "F", false),
  (text "FALSE", false), (text "false", false), (text "False", false)]

def switch (f : Flag) (value : Text) : Except FlagError Bool :=
  match switchWords.lookup value with
  | some b => .ok b
  | none => .error (.badSwitch f value)

/-- Gives a flag a value. -/
def give (i : Invocation) (f : Flag) (value : Text) : Except FlagError Invocation :=
  match f with
  | .config => .ok { i with config := value }
  | .logLevel => .ok { i with logLevel := some value }
  | .marker => .ok { i with marker := some value }
  | .includeCompat => (switch f value).map fun b => { i with includeCompat := some b }
  | .countInfo => (switch f value).map fun b => { i with countInfo := some b }
  | .help => (switch f value).map fun b => { i with help := b }
  | .version => (switch f value).map fun b => { i with version := b }

/-- A switch without a value. -/
def turnOn (i : Invocation) (f : Flag) : Except FlagError Invocation := i.give f (text "true")

/-- Letters that belong to a test run; they say nothing here. -/
def testLetters : Text := text "test."

/-- The letters behind a single dash. All of them are switches, and the last may have a value after an equals sign. -/
def giveLetters (i : Invocation) : Text → Except FlagError Invocation
  | [] => .ok i
  | b :: rest =>
    if testLetters.isPrefixOf (b :: rest) then .ok i
    else match Flag.ofLetter? b with
      | none => .error (.unknownLetter b (b :: rest))
      | some f =>
        match rest with
        | 0x3D :: c :: value => i.give f (c :: value)
        | _ => do
          let i ← i.turnOn f
          i.giveLetters rest

/-- A word of the command line. -/
inductive Word where
  | argument
  /-- From here on all words are arguments. -/
  | endOfFlags
  | letters (letters : Text)
  | named (name : Text) (value : Option Text)
  | badForm
  deriving Repr, DecidableEq

/-- A name, and the value after the first equals sign. -/
def Word.ofBody (body : Text) : Word :=
  match body with
  | [] => .endOfFlags
  | b :: _ =>
    if b == 0x2D || b == 0x3D then .badForm
    else
      let name := body.takeWhile (· != 0x3D)
      match body.dropWhile (· != 0x3D) with
      | [] => .named name none
      | _ :: value => .named name (some value)

def Word.ofText : Text → Word
  | 0x2D :: 0x2D :: body => ofBody body
  | 0x2D :: b :: rest => .letters (b :: rest)
  | _ => .argument

/-- Reads the words of a command line. -/
def read (i : Invocation) : List Text → Except FlagError Invocation
  | [] => .ok i
  | word :: rest =>
    match Word.ofText word with
    | .argument => read { i with arguments := i.arguments ++ [word] } rest
    | .endOfFlags => .ok { i with arguments := i.arguments ++ rest }
    | .badForm => .error (.badForm word)
    | .letters letters => do
      let i ← i.giveLetters letters
      i.read rest
    | .named name value =>
      match Flag.ofName? name with
      | none => .error (.unknown name)
      | some f =>
        match value with
        | some value => do
          let i ← i.give f value
          i.read rest
        | none =>
          if f.isSwitch then do
            let i ← i.turnOn f
            i.read rest
          else
            match rest with
            | [] => .error (.noValue f)
            | value :: rest => do
              let i ← i.give f value
              i.read rest

end Invocation

end SignalAudit
