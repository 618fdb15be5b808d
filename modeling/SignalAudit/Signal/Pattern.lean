import SignalAudit.Signal.Kind
import SignalAudit.Text.Blank
import SignalAudit.Text.Quoted

/-!
Patterns find signal names in source lines. A pattern has a marker, which the name follows, and terminators, which
end it. Of several patterns whose marker is in a line the first in the list decides.
-/

namespace SignalAudit

/-- A marker, and how the name after it ends. -/
structure Pattern where
  kind : Kind
  marker : Text
  /-- The name ends at the first code point that is one of these. -/
  terminators : Text
  deriving Repr, DecidableEq

/-- A line's kind and the name found in it. -/
structure Match where
  kind : Kind
  name : Text
  deriving Repr, DecidableEq

/-- Nothing is said about a signal. -/
def Match.none : Match := ⟨.noMatch, []⟩

/-- A line that holds a marker whose name never ends. -/
structure Malformed where
  marker : Text
  terminators : Text
  deriving Repr, DecidableEq

def Malformed.message (e : Malformed) : Text :=
  text "marker without terminator: " ++ Text.quote e.marker ++ text " expects one of " ++
    Text.quote e.terminators

namespace Pattern

/-- The engine's own markers, in order of priority. Names given by an accessor are not quoted, and arguments may
follow them. -/
def standard : List Pattern := [
  ⟨.declaration, text "ADD_SIGNAL(MethodInfo(\"", text "\""⟩,
  ⟨.emission, text "emit_signal(\"", text "\""⟩,
  ⟨.emission, text "emit_signal(CoreStringNames::get_singleton()->", text ",)"⟩,
  ⟨.emission, text "emit_signal(SceneStringNames::get_singleton()->", text ",)"⟩,
  ⟨.connection, text "->connect(\"", text "\""⟩,
  ⟨.compatConnection, text "connect_compat(\"", text "\""⟩]

/-- An empty list stands for the standard patterns. -/
def orStandard (patterns : List Pattern) : List Pattern :=
  if patterns.isEmpty then standard else patterns

end Pattern

/-- A line whose first visible characters open a comment. -/
def isComment (line : Text) : Bool := (text "//").isPrefixOf (Text.trimStart line)

/-- The verdict of the first pattern whose marker occurs in a line. -/
def firstMatch : List Pattern → Text → Except Malformed Match
  | [], _ => .ok .none
  | p :: patterns, line =>
    match Text.after? p.marker line with
    | none => firstMatch patterns line
    | some rest =>
      match Text.beforeAny? p.terminators rest with
      | none => .error ⟨p.marker, p.terminators⟩
      | some name => .ok ⟨p.kind, name⟩

/-- What a line says about a signal. Comments say nothing. -/
def classify (patterns : List Pattern) (line : Text) : Except Malformed Match :=
  if isComment line then .ok .none else firstMatch patterns line

end SignalAudit
