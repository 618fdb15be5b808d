import SignalAudit.Text.Blank
import SignalAudit.Text.Lower

/-!
Levels of log messages, from the most verbose to the most severe.
-/

namespace SignalAudit

inductive Level where
  | trace
  | debug
  | info
  | warn
  | error
  deriving Repr, DecidableEq

namespace Level

/-- All levels, most verbose first. -/
def all : List Level := [trace, debug, info, warn, error]

def name : Level → Text
  | trace => text "trace"
  | debug => text "debug"
  | info => text "info"
  | warn => text "warn"
  | error => text "error"

/-- The name in capitals, as it stands in a log line. -/
def label : Level → Text
  | trace => text "TRACE"
  | debug => text "DEBUG"
  | info => text "INFO"
  | warn => text "WARN"
  | error => text "ERROR"

/-- Messages of a lower rank than the threshold are not written. -/
def rank : Level → Nat
  | trace => 0
  | debug => 1
  | info => 2
  | warn => 3
  | error => 4

/-- The colour of a label on a terminal. -/
def style : Level → Int
  | trace => 90
  | debug => 36
  | info => 34
  | warn => 33
  | error => 31

/-- The level that a text names, in any case and with blanks around it. -/
def ofText? (t : Text) : Option Level :=
  let word := Text.lower (Text.trim t)
  all.find? fun l => l.name == word

/-- A text that names a level. -/
def isNamedBy (t : Text) : Bool := (ofText? t).isSome

/-- The threshold a text asks for; a text that names no level asks for `info`. -/
def threshold (t : Text) : Level := (ofText? t).getD info

end Level

end SignalAudit
