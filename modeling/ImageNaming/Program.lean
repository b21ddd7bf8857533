import ImageNaming.Command.Run

/-!
# The program

Reads the files that a run may look at, runs the command, writes what it leaves behind and ends with
its status. A program is made of this by a reader of documents.
-/

namespace ImageNaming

/-- What is found at a path of the file system. -/
def readEntry (path : Path) : IO (Option Entry) := do
  let name := String.ofList path.text
  try
    return some (.file (← IO.FS.readBinFile name))
  catch
    -- A name on the way that is no directory is told from a directory at the end by being named.
    | .noFileOrDirectory .. | .inappropriateType (some _) .. => return none
    | .inappropriateType none .. => return some .directory
    | failure =>
      try
        discard <| IO.FS.realPath name
        return some (.unreadable (toString failure))
      catch
        | _ => return some .unreachable

/-- The name of a fault on the error output. -/
def faultMessage : Fault → String
  | .unreachable => "what a path leads to cannot be found out"
  | .undecodable => "a file does not hold UTF-8 text"
  | .directory => "the list of images is a directory"
  | .unreadable => "the list of images cannot be opened"
  | .keyNotText => "a setting is named by a key that is not a text"
  | .missingField => "a field of the report is missing"
  | .blankSettingsPath => "the file with the settings is left blank"
  | .blankTag => "the tag is left blank"

/-- Runs the command that the arguments ask for. -/
def program (reader : Document.Reader) (args : List String) : IO UInt32 := do
  let texts := args.map String.toList
  let entries ← (Command.pathsRead texts).mapM fun path => return (path, ← readEntry path)
  let files : Files := fun path => (entries.lookup path).join
  let transcript := Command.run reader texts files
  (← IO.getStdout).putStr (String.ofList transcript.output)
  let errors ← IO.getStderr
  errors.putStr (String.ofList transcript.errors)
  match transcript.status with
  | .ok status => return status.toUInt32
  | .error fault =>
    errors.putStrLn (faultMessage fault)
    return 1

end ImageNaming
