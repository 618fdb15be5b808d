import SignalAudit.FileSystem.Resolve

/-!
Access to a file system by path, and its failures.
-/

namespace SignalAudit

/-- Why an access failed. Everything can be read by everyone, and no device breaks: failures for want of permission or
of the hardware are left out. -/
inductive Reason where
  | notFound
  | notDirectory
  | tooManyLinks
  | invalidArgument
  | isDirectory
  | tooLong
  deriving Repr, DecidableEq

def Reason.message : Reason → Text
  | notFound => text "no such file or directory"
  | notDirectory => text "not a directory"
  | tooManyLinks => text "too many levels of symbolic links"
  | invalidArgument => text "invalid argument"
  | isDirectory => text "is a directory"
  | tooLong => text "file name too long"

/-- What was tried. -/
inductive Operation where
  | stat
  | lstat
  | openFile
  | read
  deriving Repr, DecidableEq

def Operation.name : Operation → Text
  | stat => text "stat"
  | lstat => text "lstat"
  | openFile => text "open"
  | read => text "read"

/-- A failed access. -/
inductive AccessError where
  | operation (op : Operation) (path : Text) (reason : Reason)
  /-- A path to be spelled without links goes on after something that is no directory. -/
  | brokenRoute
  /-- A path to be spelled without links has too many of them. -/
  | endlessRoute
  deriving Repr, DecidableEq

namespace AccessError

def message : AccessError → Text
  | operation op path reason => op.name ++ text " " ++ path ++ text ": " ++ reason.message
  | brokenRoute => Reason.notDirectory.message
  | endlessRoute => text "EvalSymlinks: too many links"

/-- There is no such object. -/
def isNotFound : AccessError → Bool
  | operation _ _ .notFound => true
  | _ => false

end AccessError

namespace Obstacle

/-- An obstacle as the reason for which a lookup fails. -/
def reason : Obstacle → Reason
  | missing _ => .notFound
  | notDirectory => .notDirectory
  | tooManyLinks => .tooManyLinks
  | unspeakable _ => .invalidArgument
  | tooLong _ => .tooLong

/-- An obstacle on the way to a spelling without links. -/
def onRoute : Obstacle → AccessError
  | missing spelling => .operation .lstat spelling .notFound
  | notDirectory => .brokenRoute
  | tooManyLinks => .endlessRoute
  | unspeakable spelling => .operation .lstat spelling .invalidArgument
  | tooLong spelling => .operation .lstat spelling .tooLong

end Obstacle

namespace FileSystem

/-- The number of bytes in the longest path that can be looked up. -/
def longestPath : Nat := 4095

/-- A lookup follows at most this many links. -/
def lookupLinks : Nat := 40

def lookupLimits : Limits := { links := lookupLinks }

/-- A spelling without links is sought part by part, and each part of it is looked up on its own. -/
def routeLimits : Limits := { links := 255, spelling := some longestPath }

/-- The place of what a path leads to, links followed. -/
def locate (fs : FileSystem) (path : Text) : Except Reason Location :=
  if path.contains 0 then .error .invalidArgument
  else if path = [] then .error .notFound
  else if longestPath < path.length then .error .tooLong
  else match fs.resolve lookupLimits path with
    | .ok cursor => .ok cursor.place
    | .error obstacle => .error obstacle.reason

/-- What a path leads to, links followed. -/
def lookup (fs : FileSystem) (path : Text) : Except Reason Object :=
  match fs.locate path with
  | .error reason => .error reason
  | .ok place =>
    match fs.at? place with
    | some object => .ok object
    | none => .error .notFound

def stat (fs : FileSystem) (path : Text) : Except AccessError Object :=
  match fs.lookup path with
  | .ok object => .ok object
  | .error reason => .error (.operation .stat path reason)

/-- Opens a path for reading. -/
def openFile (fs : FileSystem) (path : Text) : Except AccessError Object :=
  match fs.lookup path with
  | .ok object => .ok object
  | .error reason => .error (.operation .openFile path reason)

/-- Reads to its end what was opened under a path. A link is never opened itself. -/
def readObject (path : Text) : Object → Except AccessError ByteArray
  | .file content | .pipe content | .device content => .ok content
  | .directory => .error (.operation .read path .isDirectory)
  | .link _ => .ok .empty

/-- The content of a file. -/
def readFile (fs : FileSystem) (path : Text) : Except AccessError ByteArray :=
  match fs.openFile path with
  | .error e => .error e
  | .ok object => readObject path object

/-- The entries of a directory in the order of their names. -/
def readDirectory (fs : FileSystem) (path : Text) : Except AccessError (List (Text × Object)) :=
  match fs.locate path with
  | .error reason => .error (.operation .openFile path reason)
  | .ok place =>
    if fs.isDirectory place then .ok (fs.entries place)
    else .error (.operation .openFile path .notDirectory)

/-- The spelling of a path with every link replaced by its target. A relative path stays relative unless a link leads
to the top. -/
def canonical (fs : FileSystem) (path : Text) : Except AccessError Text :=
  match fs.resolve routeLimits path with
  | .ok cursor => .ok (Path.clean cursor.route.spelling)
  | .error obstacle => .error obstacle.onRoute

/-- What the working directory is called: the path by which it was entered, if that is absolute and leads there, or
else its own spelling. -/
def workingDirectory (fs : FileSystem) : Text :=
  if Path.isAbsolute fs.pwd ∧ (fs.locate fs.pwd).toOption = some fs.cwd then fs.pwd else spelling fs.cwd

/-- A path as it is seen from what the working directory is called. If that goes through links, a path that goes up from
there comes to another place than it leads to. -/
def fromHere (fs : FileSystem) (path : Text) : Text := Path.seenFrom fs.workingDirectory path

end FileSystem

end SignalAudit
