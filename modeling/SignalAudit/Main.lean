import SignalAudit.Command.Run
import Std.Time.Zoned

/-!
The command line. The part of the file system that a run can see is read first, and the run is decided on what was
read. Links are kept with the place they lead to.
-/

namespace SignalAudit

/-- What was read of the file system. -/
structure Capture where
  fs : FileSystem
  /-- The directories whose entries were read. -/
  entered : List String := []

namespace Capture

/-- The location of an absolute path without links. -/
def location (path : String) : Location := Path.stack true [] (Path.parts (text path))

def set (c : Capture) (path : String) (object : Object) : Capture :=
  { c with fs := c.fs.place (location path) object }

/-- The absolute spelling of a path, links followed, if it leads anywhere. That of the top is empty. -/
def destination? (path : String) : IO (Option String) := do
  try
    let real := (← IO.FS.realPath path).toString
    pure (some (if real == "/" then "" else real))
  catch _ => pure none

/-- A link that leads nowhere goes round in a circle. -/
def isEndless (link : IO.FS.DirEntry) : IO Bool := do
  try
    let _ ← link.path.metadata
    pure false
  catch
    | .noFileOrDirectory .. => pure false
    | _ => pure true

/-- A name that no file is likely to have. -/
def nowhere : Text := List.replicate longestName 0x2D

def kind? (entry : IO.FS.DirEntry) : IO (Option IO.FS.FileType) := do
  try
    let found ← entry.path.symlinkMetadata
    pure (some found.type)
  catch _ => pure none

/-- How much of an entry is read. -/
inductive Extent where
  /-- What kind of thing it is. -/
  | kind
  /-- The content, if it is a file. -/
  | content
  /-- All that a walk through it reads. -/
  | tree (filter : SourceFilter)

/-- The file with this name is read. -/
def Extent.reads (x : Extent) (name : Text) : Bool :=
  match x with
  | .kind => false
  | .content => true
  | .tree filter => filter.isSource name

/-- The directory above a path, and the last name of the path. -/
def lastStep (path : String) : String × String :=
  let parts := path.splitOn "/"
  (String.intercalate "/" parts.dropLast, parts.getLastD "")

/-- Reads the entry of a directory whose path has no links. -/
partial def entry (x : Extent) (dir name : String) (c : Capture) : IO Capture := do
  let e : IO.FS.DirEntry := { root := dir, fileName := name }
  let path := dir ++ "/" ++ name
  match ← kind? e with
  | none => pure c
  | some .symlink =>
    match ← destination? path with
    | none => pure (c.set path (.link (if ← isEndless e then text name else nowhere)))
    | some "" => pure (c.set path (.link (text "/")))
    | some target =>
      let (dir, name) := lastStep target
      entry x dir name (c.set path (.link (text target)))
  | some .file =>
    let content ← if x.reads (text name) then IO.FS.readBinFile e.path else pure .empty
    pure (c.set path (.file content))
  | some .dir =>
    let c := c.set path .directory
    match x with
    | .tree filter =>
      if c.entered.contains path then pure c
      else
        let entries ← e.path.readDir
        entries.foldlM (fun c found =>
          entry (if filter.skips (text found.fileName) then .kind else x) path found.fileName c)
          { c with entered := path :: c.entered }
    | _ => pure c
  | some .other =>
    -- A walk leaves such an entry alone; opened, it might never come to its end.
    let supply ← match x with
      | .content => IO.FS.readBinFile e.path
      | .kind | .tree _ => pure .empty
    pure (c.set path (.pipe supply))

/-- Reads the links on the way to a path, and what it leads to. -/
def route (x : Extent) (dir : String) : List String → Capture → IO Capture
  | [], c =>
    let (above, name) := lastStep dir
    entry x above name c
  | "" :: rest, c | "." :: rest, c => route x dir rest c
  | part :: rest, c => do
    let c ← if part == ".." then pure c else entry .kind dir part c
    match ← destination? (dir ++ "/" ++ part) with
    | none => pure c
    | some target => route x target rest c

/-- Reads what a path leads to. -/
def path (x : Extent) (cwd path : String) (c : Capture) : IO Capture :=
  if path.isEmpty then pure c
  else route x (if path.startsWith "/" then "" else cwd) (path.splitOn "/") c

end Capture

/-- The time of day. -/
def clock : IO Text := do
  let now ← Std.Time.PlainTime.now
  let two (n : Int) : Text := (if n < 10 then text "0" else []) ++ Text.ofInt n
  pure (two now.hour.val ++ text ":" ++ two now.minute.val ++ text ":" ++ two now.second.val)

def terminalOr (stream : IO.FS.Stream) : IO Sink := do
  pure (if ← stream.isTty then .terminal else .file)

def environment : IO Environment := do
  let noColor ← IO.getEnv "NO_COLOR"
  let term ← IO.getEnv "TERM"
  pure { noColor := text (noColor.getD ""), term := text (term.getD "") }

/-- The files that a run with these words can read. A tree is only read if it is a project. -/
def visible (words : List Text) (cwd : String) (c : Capture) : IO FileSystem :=
  match Invocation.read {} words with
  | .error _ => pure c.fs
  | .ok i => do
    let spelled (t : Text) : String := (String.fromUTF8? ⟨t.toArray⟩).getD ""
    let c ← c.path .content cwd (spelled i.config)
    match i.settings c.fs with
    | .error _ => pure c.fs
    | .ok s =>
      let c ← c.path .kind cwd (spelled i.root)
      let c ← c.path .kind cwd (spelled (Path.join i.root s.marker))
      match Audit.place c.fs s i.root with
      | .error _ => pure c.fs
      | .ok place =>
        let c ← c.path (.tree s.filter) cwd (spelled place)
        pure c.fs

end SignalAudit

open SignalAudit in
/-- Runs the command on the arguments of the process. -/
def main (args : List String) : IO UInt32 := do
  let words := args.map text
  let cwd := (← IO.currentDir).toString
  let pwd := (← IO.getEnv "PWD").getD ""
  let here := Capture.location cwd
  let start : FileSystem := { cwd := here, pwd := text pwd }
  let fs ← visible words cwd (← Capture.path .kind cwd pwd { fs := start.makeDirectory here })
  let stdout ← IO.getStdout
  let stderr ← IO.getStderr
  let w : Surroundings := {
    fs
    environment := ← environment
    stdout := ← terminalOr stdout
    stderr := ← terminalOr stderr
    time := ← clock
    diagnose := fun _ => text "yaml: not well-formed" }
  let o := w.run words
  stderr.write ⟨o.stderr.toArray⟩
  stdout.write ⟨o.stdout.toArray⟩
  pure o.exitCode.toUInt32
