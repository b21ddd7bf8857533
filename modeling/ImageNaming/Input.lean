import ImageNaming.Log
import ImageNaming.Reference.Check

/-!
# Inputs

What a user types is cleaned before it is used: blanks at its ends are dropped, an empty input is
refused, and so is an image name with characters that a shell gives a meaning to or a registry that
is no host.
-/

namespace ImageNaming.Input

/-- The characters that no image name may hold: quotes, what a shell gives a meaning to and line
ends. -/
def forbidden : List Char := ['"', '\'', ';', '&', '|', '$', '\x60', '\n', '\r']

/-- The refusal of an input. -/
def refuse {α : Type} (field : Option Text) (cause : InputCause) : Except Problem α :=
  .error (.input ⟨field, cause⟩)

/-- The field of an image name. -/
def imageField : Option Text := some "image"

/-- The field of a registry. -/
def registryField : Option Text := some "registry"

/-- The field of a path. -/
def pathField : Option Text := some "path"

/-- An image name without the blanks at its ends. -/
def cleanImage (image : Option Text) (field : Option Text := imageField) : Except Problem Text :=
  let trimmed := Text.trim (image.getD [])
  if trimmed.isEmpty then refuse field .emptyImage
  else if trimmed.any forbidden.contains then refuse field (.forbiddenCharacters trimmed)
  else .ok trimmed

/-- Why a registry is refused, or the host without the blanks at its ends. -/
def registryHost (registry : Option Text) : Except InputCause Text :=
  let trimmed := Text.trim (registry.getD [])
  if trimmed.isEmpty then .error .emptyRegistry
  else if Grammar.isHost trimmed then .ok trimmed
  else .error (.invalidHost trimmed)

/-- A registry without the blanks at its ends. -/
def cleanRegistry (registry : Option Text) (field : Option Text := registryField) :
    Except Problem Text :=
  (registryHost registry).mapError fun cause => .input ⟨field, cause⟩

/-- The full name of an image under a fallback registry. -/
def canonicalName (image : Option Text) (fallback : Option Text := none)
    (field : Option Text := imageField) : Except Problem Text := do
  let cleaned ← cleanImage image field
  let reference ← Reference.parse (some cleaned)
  return reference.fullName fallback

/-- `canonicalName`, with the note on the check of the name. -/
def canonicalNameLogged (image : Text) (fallback : Option Text := none) : Logged Text := do
  let cleaned ← Logged.ofExcept (cleanImage (some image))
  let reference ← Reference.parseLogged (some cleaned)
  return reference.fullName fallback

end ImageNaming.Input
