import SignalAudit.FileSystem.Access
import SignalAudit.Text.Lines
import SignalAudit.Usage

/-!
The signals of one source file. Lines are classified in order until one cannot be read; what was found before stays.
-/

namespace SignalAudit

/-- Why a file was not classified to its end. -/
inductive FileError where
  | unopened (cause : AccessError)
  | unread (cause : AccessError)
  | overlong
  | malformed (line : Nat) (cause : Malformed)
  deriving Repr, DecidableEq

def FileError.message : FileError → Text
  | unopened cause => text "failed to open file: " ++ cause.message
  | unread cause => text "failed to read file: " ++ cause.message
  | overlong => text "failed to read file: bufio.Scanner: token too long"
  | malformed line cause => text "line " ++ Text.ofNat line ++ text ": " ++ cause.message

variable {σ : Type}

/-- Classifies lines, the first of which has the given number, and records each result. -/
def classifyLines (patterns : List Pattern) (record : Nat → Match → σ → σ) :
    Nat → List Text → σ → σ × Option FileError
  | _, [], state => (state, none)
  | number, raw :: rest, state =>
    if Text.isOverlong raw then (state, some .overlong)
    else match classify patterns (Text.dropReturn raw) with
      | .error cause => (state, some (.malformed number cause))
      | .ok found => classifyLines patterns record (number + 1) rest (record number found state)

/-- Classifies the content of a file. -/
def classifyContent (patterns : List Pattern) (record : Nat → Match → σ → σ) (content : ByteArray) (state : σ) :
    σ × Option FileError :=
  classifyLines patterns record 1 (Text.rawLines content) state

/-- Classifies the file that a path leads to. -/
def classifyFile (fs : FileSystem) (patterns : List Pattern) (record : Nat → Match → σ → σ) (path : Text)
    (state : σ) : σ × Option FileError :=
  match fs.openFile path with
  | .error cause => (state, some (.unopened cause))
  | .ok object =>
    match FileSystem.readObject path object with
    | .error cause => (state, some (.unread cause))
    | .ok content => classifyContent patterns record content state

namespace Usage

/-- Adds the matches of a file. -/
def addFile (fs : FileSystem) (patterns : List Pattern) (path : Text) (u : Usage) : Usage × Option FileError :=
  classifyFile fs patterns (fun _ found u => u.add found) path u

end Usage

end SignalAudit
