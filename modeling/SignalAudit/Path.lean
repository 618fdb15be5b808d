import SignalAudit.Text.Basic

/-!
Path spellings. A path is text whose parts are divided by slashes; cleaning removes what does not change the place
it spells when no part is a link.
-/

namespace SignalAudit.Path

/-- The byte that divides the parts of a path. -/
def slash : UInt8 := 0x2F

/-- The part that stays where it is. -/
def dot : Text := text "."

/-- The part that goes up. -/
def dotDot : Text := text ".."

/-- A path that starts at the top. -/
def isAbsolute (path : Text) : Bool := path.head? == some slash

/-- The parts of a path. Two slashes in a row have an empty part between them. -/
def parts (path : Text) : List Text := path.splitOn slash

/-- Parts put together, below the top or not; `inner` lists them from the innermost outwards. -/
def spell (absolute : Bool) (inner : List Text) : Text :=
  (if absolute then [slash] else []) ++ [slash].intercalate inner.reverse

/-- Takes parts onto a stack that holds the innermost part first: empty parts and dots are left out, and going up
removes the part it goes up from. Above the top there is only the top. -/
def stack (absolute : Bool) : List Text → List Text → List Text
  | inner, [] => inner
  | inner, part :: rest =>
    if part = [] ∨ part = dot then stack absolute inner rest
    else if part = dotDot then
      match inner with
      | [] => stack absolute (if absolute then [] else [dotDot]) rest
      | last :: outer =>
        if last = dotDot then stack absolute (dotDot :: inner) rest else stack absolute outer rest
    else stack absolute (part :: inner) rest

/-- The shortest spelling that means the same when no part is a link. -/
def clean (path : Text) : Text :=
  match isAbsolute path, stack (isAbsolute path) [] (parts path) with
  | false, [] => dot
  | absolute, inner => spell absolute inner

/-- A path below a directory, cleaned. -/
def join (dir name : Text) : Text :=
  if dir = [] then
    if name = [] then [] else clean name
  else clean (dir ++ [slash] ++ name)

/-- A path as it is seen from a directory, cleaned. -/
def seenFrom (dir path : Text) : Text := if isAbsolute path then clean path else join dir path

end SignalAudit.Path
