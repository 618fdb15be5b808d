import SignalAudit.FileSystem.Access

/-!
The directory to be audited. A project is known by a marker file at its top level.
-/

namespace SignalAudit

/-- Why a path is no project to audit. -/
inductive RootError where
  | notGiven
  | notDirectory (root : Text)
  | missingMarker (root marker : Text)
  deriving Repr, DecidableEq

def RootError.message : RootError → Text
  | notGiven => text "no path given: not a proper directory"
  | notDirectory root => root ++ text " is not a proper directory"
  | missingMarker root marker =>
    root ++ text " is not a proper project root (missing " ++ marker ++ text ")"

/-- A path that leads to a directory. -/
def FileSystem.leadsToDirectory (fs : FileSystem) (path : Text) : Bool :=
  match fs.lookup path with
  | .ok object => object.isDirectory
  | .error _ => false

/-- A root is a directory, and unless the marker is empty there is something of its name inside. -/
def validateRoot (fs : FileSystem) (root marker : Text) : Except RootError Unit :=
  if root = [] then .error .notGiven
  else if !fs.leadsToDirectory root then .error (.notDirectory root)
  else if marker = [] then .ok ()
  else match fs.stat (Path.join root marker) with
    | .ok _ => .ok ()
    | .error _ => .error (.missingMarker root marker)

end SignalAudit
