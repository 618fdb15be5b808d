import SignalAudit.Command.Audit
import SignalAudit.Command.Flags
import SignalAudit.Command.Help
import SignalAudit.Settings.File

/-!
A run of the command, from the words of the command line to its output and exit code. The report goes to the standard
output, all else to the standard error.
-/

namespace SignalAudit

/-- Where the command runs. -/
structure Surroundings where
  fs : FileSystem
  environment : Environment := {}
  stdout : Sink := .buffer
  stderr : Sink := .buffer
  /-- What the clock shows. -/
  time : Text := text "00:00:00"
  /-- What a reader of YAML says about a content that is malformed. -/
  diagnose : Text → Text := fun _ => []

/-- Why the command fails. -/
inductive CommandError where
  | flags (cause : FlagError)
  | tooManyArguments (count : Nat)
  | noSettingsFile (path : Text) (cause : AccessError)
  | settingsFile (cause : SettingsFileError)
  | settings (cause : SettingsError)
  | audit (cause : AuditError)
  | unwrittenVersion (cause : WriteError)
  | unwrittenReport (cause : WriteError)
  /-- The report has findings. -/
  | mismatches
  deriving Repr, DecidableEq

namespace CommandError

def message (diagnose : Text → Text) : CommandError → Text
  | flags cause => cause.message
  | tooManyArguments count => text "accepts at most 1 arg(s), received " ++ Text.ofNat count
  | noSettingsFile path cause => text "config file " ++ path ++ text ": " ++ cause.message
  | settingsFile cause => cause.message diagnose
  | settings cause => text "invalid configuration: " ++ cause.message
  | audit cause => cause.message
  | unwrittenVersion cause => cause.message
  | unwrittenReport cause => text "failed to write report: " ++ cause.message
  | mismatches => text "signal mismatches found"

/-- What is said about an error in the end. Of mismatches the report has told already. -/
def complaint? (diagnose : Text → Text) : CommandError → Option Text
  | mismatches => none
  | e => some (e.message diagnose)

end CommandError

/-- What came out of a run. -/
structure Outcome where
  stdout : Text := []
  stderr : Text := []
  error : Option CommandError := none
  deriving Repr, DecidableEq

def Outcome.exitCode (o : Outcome) : Nat := if o.error.isSome then 1 else 0

/-- What a complaint adds to a sink. -/
def complain (env : Environment) (sink : Sink) (time : Text) : Option Text → Text
  | none => []
  | some message => (Console.new env sink Level.error.name).write time ⟨.error, message⟩

namespace Invocation

/-- The settings that were given as flags. -/
def layer (i : Invocation) : SettingsLayer where
  marker := i.marker
  logLevel := i.logLevel
  includeCompat := i.includeCompat
  countInformational := i.countInfo

/-- The settings below those given as flags. A settings file that was asked for must be there. -/
def baseSettings (i : Invocation) (fs : FileSystem) : Except CommandError Settings :=
  if i.config.isEmpty then .ok .standard
  else match fs.stat i.config with
    | .error e => .error (.noSettingsFile i.config e)
    | .ok _ =>
      match Settings.load fs i.config with
      | .error e => .error (.settingsFile e)
      | .ok s => .ok s

/-- The settings of a run. -/
def settings (i : Invocation) (fs : FileSystem) : Except CommandError Settings :=
  match i.baseSettings fs with
  | .error e => .error e
  | .ok base =>
    let s := base.override i.layer
    match s.validate with
    | .error e => .error (.settings e)
    | .ok _ => .ok s

/-- The directory to be audited; empty if none was given. -/
def root (i : Invocation) : Text := i.arguments.head?.getD []

end Invocation

namespace Surroundings

/-- What a text adds to the standard output. -/
def printed (w : Surroundings) (t : Text) : Text := if w.stdout.arrives then t else []

/-- What a remark adds to the standard error. -/
def remarked (w : Surroundings) (level : Text) : Remark → Text
  | .log entry => (Console.new w.environment w.stderr level).write w.time entry
  | .notice notice =>
    if w.stderr.arrives then notice.display (w.stderr.isColored w.environment) else []

/-- Audits a project and prints the report. -/
def audit (w : Surroundings) (s : Settings) (root : Text) : Outcome :=
  let a := Audit.run w.fs s (w.stdout.isColored w.environment) root
  let told := a.remarks.flatMap (w.remarked s.logLevel)
  match a.result with
  | .error e => { stderr := told, error := some (.audit e) }
  | .ok (u, r) =>
    match w.stdout.writeError? with
    | some e => { stderr := told, error := some (.unwrittenReport e) }
    | none =>
      { stdout := w.printed r.render
        stderr := told ++ w.remarked s.logLevel (Audit.closing u r)
        error := if r.failed then some .mismatches else none }

/-- Does what an invocation asks for: help, then the version, then an audit. -/
def invoke (w : Surroundings) (i : Invocation) : Outcome :=
  if i.help then { stdout := w.printed helpText }
  else if i.version then
    { stdout := w.printed versionText, error := w.stdout.writeError?.map .unwrittenVersion }
  else if 1 < i.arguments.length then { error := some (.tooManyArguments i.arguments.length) }
  else match i.settings w.fs with
    | .error e => { error := some e }
    | .ok s => w.audit s i.root

/-- An outcome with the last complaint. -/
def closed (w : Surroundings) (o : Outcome) : Outcome :=
  let complaint := o.error.bind (CommandError.complaint? w.diagnose)
  { o with stderr := o.stderr ++ complain w.environment w.stderr w.time complaint }

/-- Runs the command on the words of a command line. -/
def run (w : Surroundings) (words : List Text) : Outcome :=
  w.closed <|
    match Invocation.read {} words with
    | .error e => { error := some (.flags e) }
    | .ok i => w.invoke i

end Surroundings

end SignalAudit
