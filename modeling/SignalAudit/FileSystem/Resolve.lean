import SignalAudit.FileSystem.Basic

/-!
Following a path. A cursor walks over the parts of a path from directory to directory. It knows the location it has
reached, and it remembers the route it took: the spelling of that location with every link replaced by its target.
At a link the target's parts take the link's place; a limit on the number of links makes the walk finite.
-/

namespace SignalAudit

/-- A spelling under construction, innermost part first. -/
structure Route where
  absolute : Bool
  inner : List Text
  deriving Repr, DecidableEq

namespace Route

def spelling (r : Route) : Text := Path.spell r.absolute r.inner

def push (r : Route) (part : Text) : Route := { r with inner := part :: r.inner }

/-- Goes up by dropping the last part, unless that part went up itself or no other part would remain. -/
def up (r : Route) : Route :=
  match r.inner with
  | last :: next :: outer =>
    if last = Path.dotDot then r.push Path.dotDot else { r with inner := next :: outer }
  | _ => r.push Path.dotDot

end Route

/-- A location and the route to it. -/
structure Cursor where
  place : Location
  route : Route
  deriving Repr, DecidableEq

/-- What stops the following of a path. -/
inductive Obstacle where
  /-- There is nothing of this spelling. -/
  | missing (spelling : Text)
  /-- A part follows something that is no directory. -/
  | notDirectory
  | tooManyLinks
  /-- This spelling cannot name anything. -/
  | unspeakable (spelling : Text)
  /-- This spelling, or its last part, has too many bytes. -/
  | tooLong (spelling : Text)
  deriving Repr, DecidableEq

/-- What the following of a path is limited to. -/
structure Limits where
  /-- The number of links that are followed. -/
  links : Nat
  /-- The number of bytes in the longest spelling of a route. -/
  spelling : Option Nat := none
  deriving Repr, DecidableEq

/-- A spelling within the limit. -/
def Limits.admits (l : Limits) (spelling : Text) : Bool := l.spelling.all fun n => decide (spelling.length ≤ n)

/-- Where following parts ends, if not at a link. -/
inductive Stop where
  | arrived (cursor : Cursor)
  | blocked (obstacle : Obstacle)
  /-- A link to `target` in the directory of the cursor, with parts still to follow. -/
  | atLink (cursor : Cursor) (target : Text) (rest : List Text)
  deriving Repr, DecidableEq

namespace FileSystem

/-- The cursor from which a path sets out: the top, or the directory it is relative to. -/
def outset (path : Text) (here : Cursor) : Cursor :=
  if Path.isAbsolute path then ⟨[], ⟨true, []⟩⟩ else here

/-- Follows parts up to the end or up to the next link. -/
def follow (fs : FileSystem) (limits : Limits) : Cursor → List Text → Stop
  | cursor, [] => .arrived cursor
  | cursor, part :: rest =>
    if fs.isDirectory cursor.place then
      if part = [] ∨ part = Path.dot then fs.follow limits cursor rest
      else if part = Path.dotDot then fs.follow limits ⟨cursor.place.tail, cursor.route.up⟩ rest
      else
        let next : Cursor := ⟨part :: cursor.place, cursor.route.push part⟩
        if part.contains 0 then .blocked (.unspeakable next.route.spelling)
        else if longestName < part.length || !limits.admits next.route.spelling then
          .blocked (.tooLong next.route.spelling)
        else match fs.at? next.place with
          | none => .blocked (.missing next.route.spelling)
          | some (.link target) => .atLink cursor target rest
          | some _ => fs.follow limits next rest
    else .blocked .notDirectory

/-- Follows parts through at most `links` links. -/
def resolveParts (fs : FileSystem) (limits : Limits) : Nat → Cursor → List Text → Except Obstacle Cursor
  | links, cursor, todo =>
    match fs.follow limits cursor todo with
    | .arrived cursor => .ok cursor
    | .blocked obstacle => .error obstacle
    | .atLink cursor target rest =>
      match links with
      | 0 => .error .tooManyLinks
      | links + 1 => fs.resolveParts limits links (outset target cursor) (Path.parts target ++ rest)

/-- Follows a path from the working directory. -/
def resolve (fs : FileSystem) (limits : Limits) (path : Text) : Except Obstacle Cursor :=
  fs.resolveParts limits limits.links (outset path ⟨fs.cwd, ⟨false, []⟩⟩) (Path.parts path)

end FileSystem

end SignalAudit
