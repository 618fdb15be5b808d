import SignalAudit.Console.Terminal

/-!
Notices for the user: a title, and below it an explanation, the files concerned and a suggestion, as far as given.
-/

namespace SignalAudit

structure Notice where
  title : Text
  message : Text := []
  files : List Text := []
  suggestion : Text := []
  deriving Repr, DecidableEq

namespace Notice

/-- The files as a numbered list. -/
def numbered (files : List Text) : Text :=
  (files.zipIdx 1).flatMap fun (file, i) => text "      " ++ Text.ofNat i ++ text ". " ++ file ++ text "\n"

def renderFiles : List Text → Text
  | [] => []
  | [file] => text "    Affected file:\n" ++ numbered [file]
  | files => text "    Affected files:\n" ++ numbered files

/-- The notice as plain text. -/
def render (n : Notice) : Text :=
  text "Warning: " ++ n.title ++ text "\n" ++
    (if n.message.isEmpty then [] else text "    " ++ n.message ++ text "\n") ++
    renderFiles n.files ++
    (if n.suggestion.isEmpty then []
      else text "    Suggestion:\n" ++ text "    " ++ n.suggestion ++ text "\n")

/-- The notice as it is shown. -/
def display (n : Notice) (colored : Bool) : Text :=
  if colored then paint yellow n.render else n.render

/-- Compat connections were found and left out of the cross-reference. -/
def ignoredCompat (count : Int) : Notice where
  title := Text.ofInt count ++ text " compat connection(s) were found but not cross-referenced"
  message := text "Signals connected only through connect_compat may be reported as never connected"
  suggestion := text "Run with --include-compat to treat them as connections"

end Notice

end SignalAudit
