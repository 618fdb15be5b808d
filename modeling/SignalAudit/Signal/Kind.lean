import SignalAudit.Text.Basic

/-!
What a source line says about a signal.
-/

namespace SignalAudit

/-- The category a line belongs to. -/
inductive Kind where
  | noMatch
  | declaration
  | emission
  | connection
  | compatConnection
  | unknown
  deriving Repr, DecidableEq

namespace Kind

def name : Kind → Text
  | noMatch => text "no match"
  | declaration => text "declaration"
  | emission => text "emission"
  | connection => text "connection"
  | compatConnection => text "compat connection"
  | unknown => text "unknown"

/-- Kinds are numbered in the order of their declaration; every other number is unknown. -/
def ofCode : Nat → Kind
  | 0 => noMatch
  | 1 => declaration
  | 2 => emission
  | 3 => connection
  | 4 => compatConnection
  | _ => unknown

end Kind

end SignalAudit
