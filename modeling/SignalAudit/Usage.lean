import SignalAudit.NameSet
import SignalAudit.Signal.Pattern

/-!
The signal names found in a source tree, one set for each way of using a signal. All four sets are there from the
beginning, so there is always one to add to.
-/

namespace SignalAudit

structure Usage where
  declared : NameSet := ∅
  emitted : NameSet := ∅
  connected : NameSet := ∅
  compatConnected : NameSet := ∅
  /-- The number of files classified. -/
  files : Nat := 0
  deriving Repr, DecidableEq

namespace Usage

/-- Records a match in the set of its kind. -/
def add (u : Usage) (m : Match) : Usage :=
  match m.kind with
  | .declaration => { u with declared := u.declared.insert m.name }
  | .emission => { u with emitted := u.emitted.insert m.name }
  | .connection => { u with connected := u.connected.insert m.name }
  | .compatConnection => { u with compatConnected := u.compatConnected.insert m.name }
  | .noMatch | .unknown => u

/-- The signals that are declared, emitted and connected. -/
def fine (u : Usage) : NameSet := u.declared ∩ u.emitted ∩ u.connected

end Usage

end SignalAudit
