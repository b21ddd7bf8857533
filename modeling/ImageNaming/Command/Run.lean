import ImageNaming.Command.Arguments
import ImageNaming.ImageList
import ImageNaming.Settings

/-!
# Running the commands

A command reads the files it needs, notes what it finds and ends with a status: zero if all went
well, one if there was a problem, which it logs as a framed section, and two if its command line
cannot be followed. A fault takes the place of the status.
-/

namespace ImageNaming.Command

open Document (Reader)
open Options (Assignment)

/-- What a command leaves behind. -/
structure Outcome where
  /-- How it ended. -/
  status : Except Fault Nat
  /-- What it wrote. -/
  output : Text := []
  /-- What it noted. -/
  log : List Record := []

/-- The outcome of a command that stops with a failure: a problem is logged under a title. -/
def Outcome.failed (title : Text) (failure : Failure) (log : List Record) : Outcome :=
  match failure with
  | .problem problem => { status := .ok 1, log := log ++ Record.report title problem }
  | .fault fault => { status := .error fault, log }

/-- The settings in the file that the command line names, or in the default file. A file cannot be
left blank. -/
def chosenSettings (reader : Reader) (config : Assignment Path) (files : Files) :
    Logged Settings :=
  match config with
  | .absent => Settings.load reader files
  | .blank => Logged.fail (.fault .blankSettingsPath)
  | .value path => Settings.load reader files (some path)

/-! ## Resolving a name -/

/-- The fallback registry: the one on the command line if it is not empty, else that of the
settings. -/
def chosenRegistry (registry : Assignment Text) (settings : Settings) :
    Except Problem (Option Text) :=
  match registry with
  | .value (c :: rest) => (Input.cleanRegistry (some (c :: rest))).map some
  | _ => .ok settings.fallback

/-- The reference of a name, with the tag of the command line if there is one. A tag that is left
blank is a fault, unless the name cannot even be taken apart. -/
def chosenReference (name : Text) (tag : Assignment Text) : Logged Reference :=
  match tag with
  | .absent => Reference.parseLogged (some name)
  | .blank =>
    match Reference.decompose (some name) with
    | .error problem => Logged.fail (.problem problem)
    | .ok _ => Logged.fail (.fault .blankTag)
  | .value t => Reference.parseLogged (some name) (some t)

/-- The report on a name, after the settings, the registry and the name itself were found good, in
this order. -/
def resolved (reader : Reader) (args : ResolveArguments) (files : Files) :
    Logged (Option Text) := do
  let settings ← chosenSettings reader args.config files
  let registry ← Logged.ofExcept (chosenRegistry args.registry settings)
  let cleaned ← Logged.ofExcept (Input.cleanImage (some args.name))
  let reference ← chosenReference cleaned args.tag
  return (reference.report registry).write? (args.format.toOption.getD settings.format)

/-- The command that resolves a name and writes the report on it. -/
def resolve (reader : Reader) (args : ResolveArguments) (files : Files) : Outcome :=
  let run := resolved reader args files
  match run.outcome with
  | .error failure =>
    .failed ("Cannot resolve image reference: " ++ args.name) failure run.log
  | .ok none => { status := .error .missingField, log := run.log }
  | .ok (some report) => { status := .ok 0, output := report ++ "\n", log := run.log }

/-! ## Validating names -/

/-- The names of the list that the command line names, if it names one. -/
def chosenNames (input : Assignment Path) (files : Files) : Logged (List Text) :=
  match input with
  | .absent => pure []
  | .blank => Logged.ofExcept (Input.refuse Input.pathField .emptyPath)
  | .value path => ImageList.read files path

/-- The fallback registry and the names that are to be validated: those on the command line and then
those of the list. -/
def validationInputs (reader : Reader) (args : ValidateArguments) (files : Files) :
    Logged (Option Text × List Text) := do
  let settings ← chosenSettings reader args.config files
  let listed ← chosenNames args.input files
  return (settings.fallback, args.names ++ listed)

/-- What is noted on a name: the full name if it is valid, or the problem. -/
def nameVerdict (fallback : Option Text) (name : Text) : Bool × List Record :=
  let run := Input.canonicalNameLogged name fallback
  match run.outcome with
  | .ok fullName => (true, run.log ++ [⟨.info, "Valid: " ++ fullName⟩])
  | .error (.problem problem) =>
    (false, run.log ++ Record.report ("Invalid image reference: " ++ name) problem)
  | .error (.fault _) => (false, run.log)

/-- What is noted on all names, and how many of them there are and are valid. -/
def namesVerdict (fallback : Option Text) (names : List Text) : List Record × Nat × Nat :=
  let verdicts := names.map (nameVerdict fallback)
  (verdicts.flatMap (·.2), verdicts.countP (·.1), names.length)

/-- The command that validates names. -/
def validate (reader : Reader) (args : ValidateArguments) (files : Files) : Outcome :=
  let run := validationInputs reader args files
  match run.outcome with
  | .error failure => .failed "Cannot start validation" failure run.log
  | .ok (fallback, names) =>
    let (records, valid, total) := namesVerdict fallback names
    { status := .ok (if valid = total then 0 else 1)
      log := run.log ++ records ++ Record.summary valid total }

/-! ## The command line -/

/-- What a run leaves on its terminal. -/
structure Transcript where
  /-- How it ended. -/
  status : Except Fault Nat
  /-- What it wrote to its output. -/
  output : Text := []
  /-- What it wrote to its error output. -/
  errors : Text := []

namespace Transcript

/-- The transcript of a command: the records that are shown stand line by line on the error
output. -/
def ofOutcome (verbose : Bool) (outcome : Outcome) : Transcript where
  status := outcome.status
  output := outcome.output
  errors := (outcome.log.filter fun record => record.level.isShown verbose).flatMap fun record =>
    record.line ++ "\n"

/-- The message on a command line that is not followed. -/
def usageError (usage : Options.Usage) (stop : Options.Stop) : Text :=
  usage.command ++ ": error: " ++ stop.message ++ "\n"

/-- The transcript of a command line that is not followed. A request for help is no error. -/
def ofStop (usage : Options.Usage) : Options.Stop → Transcript
  | .help => { status := .ok 0 }
  | stop => { status := .ok 2, errors := usageError usage stop }

end Transcript

/-- The run of the command that resolves a name, from its command line. -/
def runResolve (reader : Reader) (texts : List Text) (files : Files) : Transcript :=
  match ResolveArguments.read texts with
  | .error stop => .ofStop resolveUsage stop
  | .ok args => .ofOutcome args.verbose (resolve reader args files)

/-- The run of the command that validates names, from its command line. -/
def runValidate (reader : Reader) (texts : List Text) (files : Files) : Transcript :=
  match ValidateArguments.read texts with
  | .error stop => .ofStop validateUsage stop
  | .ok args => .ofOutcome args.verbose (validate reader args files)

/-- Whether a command line is for the command that validates names, and the words behind the name
of the command. Without the name of a command it is for the one that resolves a name. -/
def dispatch : List Text → Bool × List Text
  | [] => (false, [])
  | first :: rest =>
    if first = "validate" then (true, rest)
    else if first = "parse" then (false, rest)
    else (false, first :: rest)

/-- A run, from its command line. -/
def run (reader : Reader) (texts : List Text) (files : Files) : Transcript :=
  match dispatch texts with
  | (true, rest) => runValidate reader rest files
  | (false, rest) => runResolve reader rest files

/-- The paths at which a run may look for its settings. -/
def settingsPaths : Assignment Path → List Path
  | .absent => [Settings.defaultPath]
  | config => config.toOption.toList

/-- The paths at which a run may look for a file. -/
def pathsRead (texts : List Text) : List Path :=
  match dispatch texts with
  | (true, rest) =>
    match ValidateArguments.read rest with
    | .error _ => []
    | .ok args => settingsPaths args.config ++ args.input.toOption.toList
  | (false, rest) =>
    match ResolveArguments.read rest with
    | .error _ => []
    | .ok args => settingsPaths args.config

end ImageNaming.Command
