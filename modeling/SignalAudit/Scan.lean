import SignalAudit.Console.Log
import SignalAudit.SourceFile
import SignalAudit.Walk

/-!
A scan classifies every source file of a tree. It can keep a journal of what it does.
-/

namespace SignalAudit

/-- What a scan looks for and where. -/
structure ScanOptions where
  filter : SourceFilter
  patterns : List Pattern
  deriving Repr, DecidableEq

abbrev ScanError := WalkError FileError

def scanMessage (e : ScanError) : Text := e.message FileError.message

namespace Usage

/-- Adds the matches of a file, and counts it if it was classified to its end. -/
def visitFile (fs : FileSystem) (patterns : List Pattern) (path : Text) (u : Usage) : Usage × Option FileError :=
  match u.addFile fs patterns path with
  | (u, none) => ({ u with files := u.files + 1 }, none)
  | failed => failed

end Usage

/-- Scans without a journal. Usage is only known when the whole tree was classified. -/
def scan (fs : FileSystem) (o : ScanOptions) (root : Text) : Except ScanError Usage :=
  let w : Walk Usage FileError := ⟨fs, o.filter, fun path u => u.visitFile fs (Pattern.orStandard o.patterns) path⟩
  match w.run root {} with
  | (p, none) => .ok p.state
  | (_, some error) => .error error

/-- Usage so far, and the messages about it. -/
structure Logged where
  usage : Usage := {}
  journal : Array LogEntry := #[]
  deriving Repr, DecidableEq

namespace Logged

def log (s : Logged) (level : Level) (message : Text) : Logged :=
  { s with journal := s.journal.push ⟨level, message⟩ }

/-- The journal's message about a match. -/
def matchMessage (path : Text) (line : Nat) (found : Match) : Text :=
  path ++ text ":" ++ Text.ofNat line ++ text ": " ++ found.kind.name ++ text " " ++ found.name

/-- Adds a match and notes it, unless the line says nothing about a signal. -/
def record (path : Text) (line : Nat) (found : Match) (s : Logged) : Logged :=
  let s := { s with usage := s.usage.add found }
  if found.kind = .noMatch then s else s.log .trace (matchMessage path line found)

def visitFile (fs : FileSystem) (patterns : List Pattern) (path : Text) (s : Logged) : Logged × Option FileError :=
  match classifyFile fs patterns (record path) path (s.log .debug (text "Scanning " ++ path)) with
  | (s, none) => ({ s with usage := { s.usage with files := s.usage.files + 1 } }, none)
  | failed => failed

/-- The journal's last message. -/
def summary (u : Usage) : Text :=
  text "Scanned " ++ Text.ofNat u.files ++ text " files: " ++
    Text.ofNat u.declared.size ++ text " declared, " ++
    Text.ofNat u.emitted.size ++ text " emitted, " ++
    Text.ofNat u.connected.size ++ text " connected, " ++
    Text.ofNat u.compatConnected.size ++ text " compat-connected"

end Logged

/-- Scans with a journal. -/
def scanLogged (fs : FileSystem) (o : ScanOptions) (root : Text) : Array LogEntry × Except ScanError Usage :=
  let w : Walk Logged FileError := ⟨fs, o.filter, fun path s => s.visitFile fs (Pattern.orStandard o.patterns) path⟩
  match w.run root {} with
  | (p, none) => ((p.state.log .info (Logged.summary p.state.usage)).journal, .ok p.state.usage)
  | (p, some error) => (p.state.journal, .error error)

end SignalAudit
