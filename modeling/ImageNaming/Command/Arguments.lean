import ImageNaming.Files.Path
import ImageNaming.Options.Read
import ImageNaming.Report

/-!
# Arguments of the commands

There are two commands. One resolves a single name and reports on it; the other validates any number
of names, from the command line, from a list or from both.
-/

namespace ImageNaming.Command

open Options

/-- The switch for help, which every command has. -/
def helpSwitch : Switch := ⟨'h', "help", .help⟩

/-- The switch for the file with the settings. -/
def configSwitch : Switch := ⟨'c', "config", .value []⟩

/-- The switch for records that are of interest for debugging. -/
def verboseSwitch : Switch := ⟨'v', "verbose", .flag⟩

/-- The switch for the tag. -/
def tagSwitch : Switch := ⟨'t', "tag", .value []⟩

/-- The switch for the fallback registry. -/
def registrySwitch : Switch := ⟨'r', "registry", .value []⟩

/-- The switch for the format of the report. -/
def formatSwitch : Switch := ⟨'f', "format", .value [Format.text.name, Format.json.name]⟩

/-- The switch for a list of names. -/
def inputSwitch : Switch := ⟨'i', "input", .value []⟩

/-- What the command that resolves a name takes. -/
def resolveUsage : Usage where
  command := "imageref"
  switches :=
    [helpSwitch, tagSwitch, registrySwitch, configSwitch, formatSwitch, verboseSwitch]
  operands := .one "name"

/-- What the command that validates names takes. -/
def validateUsage : Usage where
  command := "imageref validate"
  switches := [helpSwitch, inputSwitch, configSwitch, verboseSwitch]
  operands := .many

/-- The arguments of the command that resolves a name. -/
structure ResolveArguments where
  /-- The name. -/
  name : Text
  /-- The tag that takes the place of the one in the name. -/
  tag : Assignment Text := .absent
  /-- The fallback registry. -/
  registry : Assignment Text := .absent
  /-- The file with the settings. -/
  config : Assignment Path := .absent
  /-- The format of the report. -/
  format : Assignment Format := .absent
  /-- Whether records for debugging are shown. -/
  verbose : Bool := false
  deriving DecidableEq, Repr

/-- The arguments of the command that validates names. -/
structure ValidateArguments where
  /-- The names. -/
  names : List Text
  /-- The file with further names. -/
  input : Assignment Path := .absent
  /-- The file with the settings. -/
  config : Assignment Path := .absent
  /-- Whether records for debugging are shown. -/
  verbose : Bool := false
  deriving DecidableEq, Repr

namespace ResolveArguments

/-- The arguments on a command line. -/
def read (texts : List Text) : Except Stop ResolveArguments := do
  let given ← Options.read resolveUsage texts
  match given.operands with
  | [] => throw (.missingOperand "name")
  | name :: _ => return {
      name
      tag := given.assignment tagSwitch.short
      registry := given.assignment registrySwitch.short
      config := (given.assignment configSwitch.short).map Path.ofText
      format := (given.assignment formatSwitch.short).map Format.ofName
      verbose := given.has verboseSwitch.short }

end ResolveArguments

namespace ValidateArguments

/-- The arguments on a command line. There must be a name or a list. -/
def read (texts : List Text) : Except Stop ValidateArguments := do
  let given ← Options.read validateUsage texts
  let input := (given.assignment inputSwitch.short).map Path.ofText
  if given.operands.isEmpty && input.isAbsent then
    throw (.incomplete "no image references given (pass names or --input)")
  else return {
      names := given.operands
      input
      config := (given.assignment configSwitch.short).map Path.ofText
      verbose := given.has verboseSwitch.short }

end ValidateArguments

end ImageNaming.Command
