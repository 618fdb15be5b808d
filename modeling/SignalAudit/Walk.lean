import SignalAudit.FileSystem.Access

/-!
The walk over a source tree. It goes depth first through the entries of each directory in the order of their names
and visits the source files among them. Links are followed; a directory is known by its spelling without links, and
one that is known is not entered again, so that a cycle of links ends.
-/

namespace SignalAudit

/-- Which entries of a tree are sources. -/
structure SourceFilter where
  /-- Entries with these names are skipped, with all that is below them. -/
  ignored : List Text
  /-- A source ends in one of these. -/
  extensions : List Text
  /-- What ends in one of these is no source. -/
  excluded : List Text
  deriving Repr, DecidableEq

namespace SourceFilter

/-- The filter for the engine's own tree. -/
def standard : SourceFilter where
  ignored := [text "thirdparty", text "misc", text "__pycache__"]
  extensions := [text ".cpp", text ".h"]
  excluded := [text ".gen.h"]

/-- A name that a source file has. -/
def isSource (f : SourceFilter) (name : Text) : Bool :=
  !f.excluded.any (·.isSuffixOf name) && f.extensions.any (·.isSuffixOf name)

/-- Hidden and ignored entries are passed over, whatever they are. -/
def skips (f : SourceFilter) (name : Text) : Bool :=
  Path.dot.isPrefixOf name || f.ignored.contains name

end SourceFilter

/-- Why a walk ended early; `ε` are the failures of a visit. -/
inductive WalkError (ε : Type) where
  | access (path : Text) (cause : AccessError)
  | visit (path : Text) (cause : ε)
  /-- The walk went deeper than any path can lead. -/
  | tooDeep (path : Text)
  deriving Repr, DecidableEq

def WalkError.message {ε : Type} (describe : ε → Text) (e : WalkError ε) : Text :=
  text "failed to walk directory: " ++
    match e with
    | access path cause => text "error accessing " ++ path ++ text ": " ++ cause.message
    | visit path cause => path ++ text ": " ++ describe cause
    | tooDeep path => text "error accessing " ++ path ++ text ": too deep"

/-- A directory that a walk has entered: its spelling without links, and the path it was entered by. -/
structure Listing where
  canonical : Text
  path : Text
  deriving Repr, DecidableEq

/-- What a walk has done so far. -/
structure Progress (σ : Type) where
  /-- The directories entered, the latest first. -/
  listings : List Listing
  /-- What the visits have made of their state. -/
  state : σ
  deriving Repr, DecidableEq

/-- A directory of this spelling has been entered. -/
def Progress.knows {σ : Type} (p : Progress σ) (canonical : Text) : Bool :=
  p.listings.any (·.canonical == canonical)

/-- A walk over a file system: what it selects, and what it does at a source file. -/
structure Walk (σ ε : Type) where
  fs : FileSystem
  filter : SourceFilter
  /-- Takes a path and the state so far; a visit that fails ends the walk. -/
  visit : Text → σ → σ × Option ε

namespace Walk

variable {σ ε : Type}

/-- The outcome of a part of a walk: what has been done, and the error that ended it, if one did. -/
abbrev Outcome (σ ε : Type) := Progress σ × Option (WalkError ε)

/-- What to do with an entry that a path leads to, links followed. -/
def reach (w : Walk σ ε) (enter : Text → Progress σ → Outcome σ ε) (name path : Text) (object : Object)
    (p : Progress σ) : Outcome σ ε :=
  match object with
  | .directory => enter path p
  | .file _ =>
    if w.filter.isSource name then
      match w.visit path p.state with
      | (state, none) => ({ p with state }, none)
      | (state, some cause) => ({ p with state }, some (.visit path cause))
    else (p, none)
  | .link _ | .pipe _ | .device _ => (p, none)

/-- One entry of a directory. A link that leads nowhere is an error only if it is named like a source. -/
def entry (w : Walk σ ε) (enter : Text → Progress σ → Outcome σ ε) (dir : Text) (e : Text × Object)
    (p : Progress σ) : Outcome σ ε :=
  if w.filter.skips e.1 then (p, none)
  else
    let path := Path.join dir e.1
    match e.2 with
    | .link _ =>
      match w.fs.stat path with
      | .ok object => w.reach enter e.1 path object p
      | .error cause => if w.filter.isSource e.1 then (p, some (.access path cause)) else (p, none)
    | object => w.reach enter e.1 path object p

/-- The entries of a directory, up to the first error. -/
def entries (w : Walk σ ε) (enter : Text → Progress σ → Outcome σ ε) (dir : Text) :
    List (Text × Object) → Progress σ → Outcome σ ε
  | [], p => (p, none)
  | e :: rest, p =>
    match w.entry enter dir e p with
    | (p, none) => w.entries enter dir rest p
    | (p, some error) => (p, some error)

/-- Enters a directory unless it is known; `depth` bounds the nesting of directories below it. -/
def enter (w : Walk σ ε) : Nat → Text → Progress σ → Outcome σ ε
  | 0, dir, p => (p, some (.tooDeep dir))
  | depth + 1, dir, p =>
    match w.fs.canonical dir with
    | .error cause => (p, some (.access dir cause))
    | .ok canonical =>
      if p.knows canonical then (p, none)
      else
        let p := { p with listings := ⟨canonical, dir⟩ :: p.listings }
        match w.fs.readDirectory dir with
        | .error cause => (p, some (.access dir cause))
        | .ok found => w.entries (w.enter depth) dir found p

/-- A nesting that no walk exceeds: between two links a path leads through different directories, and a path that
can be looked up has a limited number of links. -/
def depthBound (fs : FileSystem) : Nat := (FileSystem.lookupLinks + 1) * (fs.objects.length + 3)

/-- Walks the tree below a root. -/
def run (w : Walk σ ε) (root : Text) (state : σ) : Outcome σ ε :=
  w.enter (depthBound w.fs) root ⟨[], state⟩

end Walk

end SignalAudit
