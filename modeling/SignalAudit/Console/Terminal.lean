import SignalAudit.Text.Basic

/-!
Where output goes, and colour. Only a terminal is coloured, and only when the environment does not forbid it.
-/

namespace SignalAudit

/-- A destination of output. -/
inductive Sink where
  | buffer
  | file
  | terminal
  /-- No destination was given. -/
  | absent
  /-- A file that was never opened: every write to it is lost. -/
  | unopened
  /-- Every write fails. -/
  | failing
  deriving Repr, DecidableEq

/-- What is written arrives. -/
def Sink.arrives : Sink → Bool
  | buffer | file | terminal => true
  | absent | unopened | failing => false

/-- Why a write fails. -/
inductive WriteError where
  | failed
  | unopened
  deriving Repr, DecidableEq

def WriteError.message : WriteError → Text
  | failed => text "write failed"
  | unopened => text "invalid argument"

/-- The failure of a write to a sink, for those who ask. -/
def Sink.writeError? : Sink → Option WriteError
  | failing => some .failed
  | unopened => some .unopened
  | buffer | file | terminal | absent => none

/-- The part of the environment that decides on colour. -/
structure Environment where
  noColor : Text := []
  term : Text := text "xterm"
  deriving Repr, DecidableEq

/-- A terminal that should receive coloured output. -/
def Sink.isColored (env : Environment) (sink : Sink) : Bool :=
  env.noColor.isEmpty && env.term != text "dumb" && sink == .terminal

/-- The style that undoes a style. -/
def resetOf : Int → Nat
  | 1 | 2 => 22
  | 3 => 23
  | 4 => 24
  | 5 | 6 => 25
  | 7 => 27
  | 8 => 28
  | 9 => 29
  | _ => 0

/-- A text shown in a style, which ends with the text. -/
def paint (style : Int) (t : Text) : Text :=
  text "\x1b[" ++ Text.ofInt style ++ text "m" ++ t ++
    text "\x1b[" ++ Text.ofNat (resetOf style) ++ text "m"

/-- The style of warnings and of highlighted names. -/
def yellow : Int := 33

end SignalAudit
