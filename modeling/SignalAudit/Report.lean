import SignalAudit.Console.Terminal
import SignalAudit.Text.Template
import SignalAudit.Usage

/-!
The cross-reference of a scan. A signal is fine when it is declared, emitted and connected; every other signal is
reported in one of six groups, by which of the three it lacks.
-/

namespace SignalAudit

/-- How usage is combined and counted. -/
structure ReportOptions where
  /-- Compat connections count as connections. -/
  includeCompat : Bool := false
  /-- Signals that only lack a connection count as findings. -/
  countInformational : Bool := true
  /-- Names are highlighted. -/
  colored : Bool := false
  deriving Repr, DecidableEq

/-- One way of being wrong, and the signals that are. -/
structure Group where
  /-- A line of the report, to be filled with a name. -/
  format : Text
  informational : Bool := false
  signals : List Text
  deriving Repr, DecidableEq

namespace Group

/-- One line for each signal. -/
def lines (g : Group) (colored : Bool) : List Text :=
  g.signals.map fun name => Text.fill g.format (if colored then paint yellow name else name)

/-- The number of findings in a group. -/
def findings (g : Group) (countInformational : Bool) : Nat :=
  if g.informational && !countInformational then 0 else g.signals.length

end Group

structure Report where
  groups : List Group
  /-- The number of findings that count toward failure. -/
  total : Nat
  /-- The number of compat connections left out of the cross-reference. -/
  ignoredCompat : Nat
  colored : Bool
  deriving Repr, DecidableEq

namespace Report

/-- The connections that count. -/
def connections (u : Usage) (o : ReportOptions) : NameSet :=
  if o.includeCompat then u.connected ∪ u.compatConnected else u.connected

/-- The six groups of the cross-reference of three sets. -/
def crossReference (declared emitted connected : NameSet) : List Group := [
  { format := text "Signal %s is emitted but never added or connected"
    signals := ((emitted \ declared) \ connected).names },
  { format := text "Signal %s is emitted and connected but never added"
    signals := ((emitted ∩ connected) \ declared).names },
  { format := text ("Signal %s is emitted and added but never connected, " ++
      "this is just information message which you can ignore.")
    informational := true
    signals := ((emitted ∩ declared) \ connected).names },
  { format := text "Signal %s is added but never emitted or connected"
    signals := ((declared \ emitted) \ connected).names },
  { format := text "Signal %s is added and connected but never emitted"
    signals := ((declared ∩ connected) \ emitted).names },
  { format := text "Signal %s is connected but never added or emitted"
    signals := ((connected \ declared) \ emitted).names }]

def build (u : Usage) (o : ReportOptions) : Report :=
  let groups := crossReference u.declared u.emitted (connections u o)
  { groups
    total := groups.foldl (fun n g => n + g.findings o.countInformational) 0
    ignoredCompat := if o.includeCompat then 0 else u.compatConnected.size
    colored := o.colored }

/-- The run ends with a failing status. -/
def failed (r : Report) : Bool := decide (0 < r.total)

/-- The last line of a report that failed. -/
def summary : Text := text "Found unused signal, exiting with code 1."

/-- The groups in order, an empty line after each, and the summary if the run failed. -/
def render (r : Report) : Text :=
  (r.groups.flatMap fun g => Text.ofLines (g.lines r.colored) ++ text "\n") ++
    (if r.failed then summary ++ text "\n" else [])

end Report

end SignalAudit
