import ImageNaming.Files.Tree
import ImageNaming.Input
import ImageNaming.Text.Lines

/-!
# Lists of images

A list of images is a text with one image name on each line. Blanks around a name are dropped;
blank lines and lines that begin with a number sign hold no name.
-/

namespace ImageNaming.ImageList

/-- Whether a line without the blanks at its ends holds a name. -/
def isEntry : Text → Bool
  | [] => false
  | c :: _ => c ≠ '#'

/-- The image names of a text, in order. -/
def entries (t : Text) : List Text := ((Text.lines t).map Text.trim).filter isEntry

/-- A path that is given and, where that is asked for, leads to something. -/
def requirePath (files : Files) (path : Option Path) (mustExist : Bool := true) :
    Except Failure Path :=
  match path with
  | none => .error (.problem (.input ⟨Input.pathField, .emptyPath⟩))
  | some path =>
    if mustExist then
      match files path with
      | none => .error (.problem (.input ⟨Input.pathField, .missingFile path.text⟩))
      | some .unreachable => .error (.fault .unreachable)
      | some _ => .ok path
    else .ok path

/-- The image names in the file at a path. -/
def read (files : Files) (path : Path) : Logged (List Text) := do
  let path ← Logged.ofResult (requirePath files (some path))
  match files path with
  | some (.file content) =>
    match Entry.decode? content with
    | none => Logged.fail (.fault .undecodable)
    | some t =>
      let images := entries t
      Logged.debug ("Read " ++ Text.ofNat images.length ++ " image reference(s) from " ++ path.text)
      return images
  | some .directory => Logged.fail (.fault .directory)
  | _ => Logged.fail (.fault .unreadable)

end ImageNaming.ImageList
