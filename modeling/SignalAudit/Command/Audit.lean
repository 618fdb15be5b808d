import SignalAudit.Notice
import SignalAudit.ProjectRoot
import SignalAudit.Report
import SignalAudit.Scan
import SignalAudit.Settings.Basic

/-!
An audit of a project: it makes sure of the project's root, scans the tree below it and cross-references what it
found. An audit has a report, unless something went wrong before, and it tells what it does on the way.
-/

namespace SignalAudit

/-- Something that is told beside the report. -/
inductive Remark where
  | log (entry : LogEntry)
  | notice (notice : Notice)
  deriving Repr, DecidableEq

/-- Why an audit has no report. -/
inductive AuditError where
  | noProject (cause : RootError)
  | unresolved (root : Text) (cause : AccessError)
  | scan (cause : ScanError)
  deriving Repr, DecidableEq

def AuditError.message : AuditError → Text
  | noProject cause => cause.message
  | unresolved root cause => text "failed to resolve " ++ root ++ text ": " ++ cause.message
  | scan cause => scanMessage cause

/-- What an audit came to. -/
structure Audit where
  remarks : List Remark
  result : Except AuditError (Usage × Report)

namespace Audit

def info (message : Text) : Remark := .log ⟨.info, message⟩

/-- The directory that an audit of a root scans: its spelling without links, made absolute. -/
def place (fs : FileSystem) (s : Settings) (root : Text) : Except AuditError Text :=
  match validateRoot fs root s.marker with
  | .error e => .error (.noProject e)
  | .ok _ =>
    match fs.canonical root with
    | .error e => .error (.unresolved root e)
    | .ok path => .ok (fs.fromHere path)

/-- What is told about a usage before it is reported. -/
def findingRemarks (place : Text) (u : Usage) (r : Report) : List Remark :=
  (if u.files = 0 then [.log ⟨.warn, text "No source files found under " ++ place⟩] else []) ++
    (if 0 < r.ignoredCompat then [.notice (.ignoredCompat r.ignoredCompat)] else [])

/-- What is told when the report is written. -/
def closing (u : Usage) (r : Report) : Remark :=
  info (text "Found " ++ Text.ofNat u.fine.size ++ text " fine signals, " ++ Text.ofNat r.total ++ text " findings")

/-- Audits the project at a root. -/
def run (fs : FileSystem) (s : Settings) (colored : Bool) (root : Text) : Audit :=
  match place fs s root with
  | .error e => ⟨[], .error e⟩
  | .ok place =>
    let (journal, scanned) := scanLogged fs ⟨s.filter, []⟩ place
    let remarks := info (text "Scanning " ++ place) :: journal.toList.map .log
    match scanned with
    | .error e => ⟨remarks, .error (.scan e)⟩
    | .ok u =>
      let r := Report.build u (s.reportOptions colored)
      ⟨remarks ++ findingRemarks place u r, .ok (u, r)⟩

end Audit

end SignalAudit
