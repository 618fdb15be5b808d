import SignalAudit.Text.Basic

/-!
What the command tells about itself.
-/

namespace SignalAudit

/-- The name by which the command is called. -/
def commandName : Text := text "signalscan"

def versionText : Text := commandName ++ text " version dev\n"

def helpLines : List Text := [
  text "signalscan walks a Godot source checkout and cross-references the signals",
  text "that are added (ADD_SIGNAL), emitted (emit_signal) and connected (->connect).",
  [],
  text "Every signal that is not added, emitted and connected is reported, grouped by",
  text "what is missing. Files under thirdparty/, misc/ and __pycache__/, hidden",
  text "entries and generated *.gen.h headers are skipped.",
  [],
  text "Exit code: 0 if no mismatches were found, 1 otherwise",
  [],
  text "Usage:",
  text "  signalscan [GDREPO] [flags]",
  [],
  text "Flags:",
  text "      --config string      Path to a YAML config file",
  text ("      --count-info         Count emitted-and-added-but-unconnected signals toward the exit code" ++
    " (default true)"),
  text "  -h, --help               help for signalscan",
  text "      --include-compat     Treat connect_compat calls as connections",
  text ("      --log-level string   Log verbosity on stderr: trace, debug, info, warn, error" ++
    " (default: warn)"),
  text ("      --marker string      File that must exist at the repository top level" ++
    " (default: icon.svg)"),
  text "  -v, --version            version for signalscan"]

def helpText : Text := Text.ofLines helpLines

end SignalAudit
