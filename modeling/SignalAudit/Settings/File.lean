import SignalAudit.Settings.Basic
import SignalAudit.Yaml.Decode
import SignalAudit.Yaml.Document

/-!
The settings file: a YAML mapping from the names of settings to their values. Keys it does not know are passed over,
and a null is as if the key were not there.
-/

namespace SignalAudit

open Yaml (NodeId Document Shape Decode DecodeError)

/-- Why there are no settings from a file. -/
inductive SettingsFileError where
  | unread (cause : AccessError)
  | undecoded (content : Text) (cause : DecodeError)
  deriving Repr, DecidableEq

/-- What is said about an error. The words for a content that is malformed are not those of this library, so `diagnose`
has to supply them. -/
def SettingsFileError.message (diagnose : Text → Text) : SettingsFileError → Text
  | unread cause => text "failed to read config file: " ++ cause.message
  | undecoded content .malformed => text "failed to parse config file: " ++ diagnose content
  | undecoded _ (.unfit problems) =>
    text "failed to parse config file: yaml: unmarshal errors:" ++ problems.flatMap (text "\n  " ++ ·)

namespace SettingsLayer

/-- How the value of each key is decoded. -/
def fields (d : Document) (bound : Nat) : List (Text × (NodeId → SettingsLayer → Decode SettingsLayer)) := [
  (text "ignored_dirs", fun id l => do
    return { l with ignored := ← Decode.textsValue d Shape.texts.orNull bound id }),
  (text "extensions", fun id l => do
    return { l with extensions := ← Decode.textsValue d Shape.texts.orNull bound id }),
  (text "exclude_suffixes", fun id l => do
    return { l with excluded := ← Decode.textsValue d Shape.texts.orNull bound id }),
  (text "marker_file", fun id l => do
    return { l with marker := ← Decode.textValue d Shape.text.orNull bound id }),
  (text "log_level", fun id l => do
    return { l with logLevel := ← Decode.textValue d Shape.text bound id }),
  (text "include_compat", fun id l => do
    return { l with includeCompat := ← Decode.flagValue d Shape.flag.orNull bound id }),
  (text "count_informational", fun id l => do
    return { l with countInformational := ← Decode.flagValue d Shape.flag.orNull bound id })]

def recordType (d : Document) (bound : Nat) : Decode.RecordType SettingsLayer where
  shape := { name := text "config.yamlConfig" }
  field? key := (fields d bound).lookup key

/-- An empty log level says nothing. -/
def withoutEmptyLevel (l : SettingsLayer) : SettingsLayer :=
  { l with logLevel := l.logLevel.filter (! ·.isEmpty) }

/-- What the content of a settings file says. -/
def ofYaml (content : Text) : Except DecodeError SettingsLayer :=
  match Document.ofText? content with
  | none => .error .malformed
  | some none => .ok {}
  | some (some d) => (d.decode (recordType d) {}).map withoutEmptyLevel

end SettingsLayer

namespace Settings

/-- The standard settings under those of a file content. -/
def ofYaml (content : Text) : Except SettingsFileError Settings :=
  match SettingsLayer.ofYaml content with
  | .error e => .error (.undecoded content e)
  | .ok l => .ok (standard.override l)

/-- The settings of a file, or the standard ones where there is no such file. -/
def load (fs : FileSystem) (path : Text) : Except SettingsFileError Settings :=
  match fs.stat path with
  | .error e => if e.isNotFound then .ok standard else read
  | .ok _ => read
where
  read : Except SettingsFileError Settings :=
    match fs.readFile path with
    | .error e => .error (.unread e)
    | .ok content => ofYaml content.data.toList

end Settings

end SignalAudit
