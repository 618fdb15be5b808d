import SignalAudit.Console.Level
import SignalAudit.Report
import SignalAudit.Text.Quoted
import SignalAudit.Walk

/-!
The settings of an audit. They come in layers: the standard settings, then a settings file, then the command line. A
layer says something on some of the settings and leaves the others as they are.
-/

namespace SignalAudit

structure Settings where
  /-- Which files are read. -/
  filter : SourceFilter
  /-- The file that a project has at its top level; an empty name asks for none. -/
  marker : Text
  /-- The least level of the messages that are shown. -/
  logLevel : Text
  includeCompat : Bool
  countInformational : Bool
  deriving Repr, DecidableEq

/-- What one source of settings says. -/
structure SettingsLayer where
  ignored : Option (List Text) := none
  extensions : Option (List Text) := none
  excluded : Option (List Text) := none
  marker : Option Text := none
  logLevel : Option Text := none
  includeCompat : Option Bool := none
  countInformational : Option Bool := none
  deriving Repr, DecidableEq

/-- Why settings cannot be used. -/
inductive SettingsError where
  | unknownLevel (level : Text)
  | noExtensions
  | emptyExtension
  | emptyExcluded
  | markerIsPath (marker : Text)
  deriving Repr, DecidableEq

def SettingsError.message : SettingsError → Text
  | unknownLevel level =>
    text "invalid log_level " ++ Text.quote level ++ text ", must be one of: " ++
      (text ", ").intercalate (Level.all.map Level.name)
  | noExtensions => text "extensions cannot be empty"
  | emptyExtension => text "extensions cannot contain an empty suffix"
  | emptyExcluded => text "exclude_suffixes cannot contain an empty suffix"
  | markerIsPath marker => text "marker_file must be a file name, got " ++ Text.quote marker

namespace Settings

def standard : Settings where
  filter := SourceFilter.standard
  marker := text "icon.svg"
  logLevel := text "warn"
  includeCompat := false
  countInformational := true

/-- The settings with what a layer says put over them. -/
def override (s : Settings) (l : SettingsLayer) : Settings where
  filter := {
    ignored := l.ignored.getD s.filter.ignored
    extensions := l.extensions.getD s.filter.extensions
    excluded := l.excluded.getD s.filter.excluded }
  marker := l.marker.getD s.marker
  logLevel := l.logLevel.getD s.logLevel
  includeCompat := l.includeCompat.getD s.includeCompat
  countInformational := l.countInformational.getD s.countInformational

/-- The first thing that is wrong with the settings. -/
def validate (s : Settings) : Except SettingsError Unit :=
  if !Level.isNamedBy s.logLevel then .error (.unknownLevel s.logLevel)
  else if s.filter.extensions.isEmpty then .error .noExtensions
  else if s.filter.extensions.contains [] then .error .emptyExtension
  else if s.filter.excluded.contains [] then .error .emptyExcluded
  else if s.marker.any fun b => b == 0x2F || b == 0x5C then .error (.markerIsPath s.marker)
  else .ok ()

/-- How the report is made. -/
def reportOptions (s : Settings) (colored : Bool) : ReportOptions where
  includeCompat := s.includeCompat
  countInformational := s.countInformational
  colored := colored

end Settings

end SignalAudit
