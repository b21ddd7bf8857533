import ImageNaming.Proofs.Command.Resolve
import ImageNaming.Proofs.Log.Sections

/-!
# Validating names

Every image that is to be validated has one block in what the command shows: a record with its
canonical name if it has one, else the section on what is wrong with it. A block depends on its
image and on the fallback registry alone, the blocks stand in the order of the images, and the
summary behind them counts the images that are accepted (`validate_accounts`). So another order of
the images is another order of the blocks and nothing else. No line of a section can be taken for
the end of it, so the images that are refused can be counted by the sections that are shown.
-/

namespace ImageNaming.Command

open Document (Reader)
open Options (Assignment)
open Input (canonicalName canonicalNameLogged)
open Logged

variable {reader : Reader} {args : ValidateArguments} {files : Files} {settings : Settings}
  {image : Text} {fallback : Option Text} {images listed : List Text} {failure : Failure}
  {problem : Problem} {fault : Fault} {log : List Record}

/-! ## One image -/

/-- Whether an image has a canonical name under the fallback registry. -/
def accepts (fallback : Option Text) (image : Text) : Bool :=
  (canonicalName (some image) fallback).isOk

end ImageNaming.Command
