import SignalAudit.Console.Level
import SignalAudit.Console.Terminal

/-!
The console log. A message of sufficient rank is written as one line with the time and its level.
-/

namespace SignalAudit

/-- A message and its level. -/
structure LogEntry where
  level : Level
  message : Text
  deriving Repr, DecidableEq

/-- A log that writes to a sink. -/
structure Console where
  sink : Sink
  threshold : Level
  colored : Bool
  deriving Repr, DecidableEq

namespace Console

/-- A log on a sink, with the threshold that a text asks for. -/
def new (env : Environment) (sink : Sink) (level : Text) : Console :=
  ⟨sink, Level.threshold level, sink.isColored env⟩

/-- A message is severe enough to be written. -/
def admits (c : Console) (l : Level) : Bool := decide (c.threshold.rank ≤ l.rank)

/-- The line of a message, with `time` for the clock. -/
def line (c : Console) (time : Text) (e : LogEntry) : Text :=
  let label := if c.colored then paint e.level.style e.level.label else e.level.label
  text "[" ++ time ++ text "] [" ++ label ++ text "] " ++ e.message ++ text "\n"

/-- What a message adds to the sink. -/
def write (c : Console) (time : Text) (e : LogEntry) : Text :=
  if c.sink.arrives && c.admits e.level then c.line time e else []

/-- What a run of messages adds to the sink. -/
def writeAll (c : Console) (time : Text) (entries : List LogEntry) : Text :=
  entries.flatMap (c.write time)

end Console

end SignalAudit
