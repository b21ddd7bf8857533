import ImageNaming.Command.Run
import ImageNaming.Proofs.Log.Shown

/-!
# Quiet computations

All that the commands compute before they report on it is quiet, and to take notes changes no
result: a name has the same reference and the same canonical name, and fails with the same problem,
whether or not the check of it is noted.
-/

namespace ImageNaming

open Document (Reader)
open Record (IsQuiet)
open Logged

variable {name : Text} {raw explicitTag fallback : Option Text} {r : Reference} {failure : Failure}
  {reader : Reader} {files : Files}

namespace Reference

end Reference

namespace Input

end Input

namespace Settings

end Settings

namespace ImageList

end ImageList

namespace Command

open Options (Assignment)

end Command

end ImageNaming
