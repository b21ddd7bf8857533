import ImageNaming.Proofs.Document.Reader
import ImageNaming.Proofs.Input.Canonical
import ImageNaming.Proofs.Log.Quiet
import ImageNaming.Proofs.Report.Lines

/-!
# Resolving a name

To resolve a name, four stages have to go well, one after the other: the settings are loaded, the
registry on the command line stands, the name is clean, and it is parsed to a reference. The first
one that fails decides how the command ends (`resolved_eq_error_iff`); nothing is written then, and
a problem is all that is reported. If none fails, the report on the reference is written and nothing
is reported. `resolve_stages_decide` says so for every command line on which the tag, if it is
given, has a value.
-/

namespace ImageNaming.Command

open Document (Reader)
open Options (Assignment)
open Grammar (isHost)
open Input (cleanImage cleanRegistry)
open Logged Reference

variable {reader : Reader} {args : ResolveArguments} {config : Assignment Path} {files : Files}
  {settings : Settings} {cleaned title : Text} {registry : Option Text} {r : Reference}
  {tag : Assignment Text} {written : Option Text} {problem : Problem} {failure : Failure}
  {fault : Fault} {log : List Record}

/-! ## Ends -/

namespace ResolveArguments

/-- The fallback registry: the one on the command line without the blanks at its ends if it is not
empty, else that of the settings. -/
def fallback (args : ResolveArguments) (settings : Settings) : Option Text :=
  match args.registry with
  | .value t => if t = [] then settings.fallback else some (Text.trim t)
  | _ => settings.fallback

end ResolveArguments

end ImageNaming.Command
