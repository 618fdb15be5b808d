import SignalAudit.NameSet
import SignalAudit.Path

/-!
A file system as a value: finitely many objects, each at a location, and a working directory with the path by which it
was entered. What is at a location is decided by `at?`, which sees an object only below directories and under a legal
name; so every value of the type is a file system, and its directories form a tree.
-/

namespace SignalAudit

/-- What a file system holds at a place. A pipe or device has no content of its own, and what it carries is what a
reader gets from it up to the end; one whose reader never comes to an end is left out. -/
inductive Object where
  | directory
  | file (content : ByteArray)
  | link (target : Text)
  | pipe (supply : ByteArray)
  | device (supply : ByteArray)

def Object.isDirectory : Object → Bool
  | directory => true
  | file _ | link _ | pipe _ | device _ => false

/-- The place of an object: its name, then the name of its directory, and so on up to the top. -/
abbrev Location := List Text

/-- The number of bytes in the longest name. -/
def longestName : Nat := 255

/-- A name that a directory entry can have. -/
def isLegalName (name : Text) : Bool :=
  !name.isEmpty && name != Path.dot && name != Path.dotDot && !name.contains Path.slash && !name.contains 0 &&
    decide (name.length ≤ longestName)

structure FileSystem where
  /-- The first object listed for a location is the one that is there. -/
  objects : List (Location × Object) := []
  /-- The working directory. -/
  cwd : Location := []
  /-- The path by which the working directory is said to have been entered; it need not lead there. -/
  pwd : Text := []

namespace FileSystem

/-- What is at a location. The top is a directory. -/
def at? (fs : FileSystem) : Location → Option Object
  | [] => some .directory
  | name :: parent =>
    if isLegalName name && (fs.at? parent).any Object.isDirectory then fs.objects.lookup (name :: parent) else none

def isDirectory (fs : FileSystem) (place : Location) : Bool := (fs.at? place).any Object.isDirectory

/-- The name under which an object is an entry of a directory. -/
def entryName? (dir : Location) : Location → Option Text
  | [] => none
  | name :: parent => if parent = dir && isLegalName name then some name else none

/-- The names of the entries of a directory. -/
def names (fs : FileSystem) (dir : Location) : NameSet :=
  .ofList (fs.objects.filterMap fun o => entryName? dir o.1)

/-- The entries of a directory in the order of their names. -/
def entries (fs : FileSystem) (dir : Location) : List (Text × Object) :=
  (fs.names dir).names.filterMap fun name => (fs.at? (name :: dir)).map fun object => (name, object)

/-- Makes a directory and those above it, as far as they do not exist. -/
def makeDirectory (fs : FileSystem) : Location → FileSystem
  | [] => fs
  | name :: parent =>
    let fs := fs.makeDirectory parent
    if (fs.at? (name :: parent)).isSome then fs
    else { fs with objects := (name :: parent, .directory) :: fs.objects }

/-- Puts an object at a location and makes the directories above it. -/
def place (fs : FileSystem) (location : Location) (object : Object) : FileSystem :=
  if object.isDirectory then fs.makeDirectory location
  else
    let fs := fs.makeDirectory location.tail
    { fs with objects := (location, object) :: fs.objects }

/-- The absolute spelling of a location. -/
def spelling (location : Location) : Text := Path.spell true location

end FileSystem

end SignalAudit
