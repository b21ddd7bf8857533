import ImageNaming.Text.Basic

/-!
# Paths

A path names a place among the files, as the names of the directories on the way and of the place
itself. Empty names and single dots are dropped when a path is read; a double dot is kept, because
it leads out of a directory only where there is one. Two slashes at the start, and no more than two,
are kept apart from a single one.
-/

namespace ImageNaming

/-- A path. -/
structure Path where
  /-- The slashes at its start: none in a path that starts from the working directory. -/
  root : Text := []
  /-- The names on the way. -/
  names : List Text
  deriving DecidableEq, Repr

namespace Path

/-- The slashes that a path starts with, as it keeps them. -/
def rootOf (t : Text) : Text :=
  match t.takeWhile (· = '/') with
  | [] => []
  | ['/', '/'] => "//"
  | _ => "/"

/-- The path that a text denotes. -/
def ofText (t : Text) : Path where
  root := rootOf t
  names := (Text.piecesBetween '/' t).filter fun name => !name.isEmpty && name != ['.']

/-- The text of a path: a single dot where it names the working directory. -/
def text (path : Path) : Text :=
  if path.root.isEmpty && path.names.isEmpty then "."
  else path.root ++ Text.joinWith "/" path.names

end Path

end ImageNaming
