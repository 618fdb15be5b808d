import SignalAudit.Yaml.Reader

/-!
Tokens of a YAML stream.
-/

namespace SignalAudit.Yaml

inductive TokenKind where
  | streamStart
  | streamEnd
  | versionDirective (major minor : Nat)
  | tagDirective (handle expansion : Text)
  | documentStart
  | documentEnd
  | blockSequenceStart
  | blockMappingStart
  | blockEnd
  | flowSequenceStart
  | flowSequenceEnd
  | flowMappingStart
  | flowMappingEnd
  | blockEntry
  | flowEntry
  | key
  | value
  | reference (name : Text)
  | anchor (name : Text)
  | tag (handle suffix : Text)
  /-- A plain scalar stands without quotes and is no block. -/
  | scalar (value : Text) (plain : Bool)
  deriving Repr, DecidableEq

structure Token where
  kind : TokenKind
  start : Mark
  stop : Mark
  deriving Repr, DecidableEq

end SignalAudit.Yaml
