import ImageNaming.Document
import ImageNaming.Reference.Violation

/-!
# Problems and faults

A problem is something that the user can mend: a name that cannot be taken apart, a name with parts
that break the rules, an input or a setting that is refused. Each is kept as its cause, and its
wording is given here. A fault is a condition that the commands make no report of: they stop with
it.
-/

namespace ImageNaming

/-- Why an input is refused. -/
inductive InputCause where
  /-- There is no image name, or it is blank. -/
  | emptyImage
  /-- The image name holds a character that a shell gives a meaning to. -/
  | forbiddenCharacters (image : Text)
  /-- There is no registry, or it is blank. -/
  | emptyRegistry
  /-- The registry is no host. -/
  | invalidHost (registry : Text)
  /-- There is no path. -/
  | emptyPath
  /-- There is no file of that path. -/
  | missingFile (path : Text)
  /-- Any other reason, in its own words. -/
  | other (reason : Text)
  deriving DecidableEq, Repr

/-- An input that is refused. -/
structure InputProblem where
  /-- What the input is for. -/
  field : Option Text
  /-- Why it is refused. -/
  cause : InputCause
  deriving DecidableEq, Repr

/-- Why the settings are refused. -/
inductive SettingsCause where
  /-- There is no file of that path. -/
  | missingFile (path : Text)
  /-- The path leads to a directory. -/
  | directory (path : Text)
  /-- The file cannot be opened, for a reason that the system gives in its own words. -/
  | unreadable (path reason : Text)
  /-- The file holds no document, for a reason that the reader gives in its own words. -/
  | notADocument (path reason : Text)
  /-- The document is not a mapping. -/
  | notAMapping (path : Text)
  /-- The document has keys that name no setting. -/
  | unknownOptions (path : Text) (options : List Text)
  /-- The default registry is not a text. -/
  | registryNotText (value : Document.Value)
  /-- The default registry is refused. -/
  | registry (problem : InputProblem)
  /-- The output format is not one of the known ones. -/
  | unknownFormat (value : Document.Value)
  /-- Any other reason, in its own words. -/
  | other (reason : Text)
  deriving Repr

/-- What the user is told about. -/
inductive Problem where
  /-- The name cannot be taken apart, or there is none. -/
  | malformed (name : Option Text)
  /-- Parts of the name break the rules. -/
  | invalid (name : Text) (violations : List Violation)
  /-- An input is refused. -/
  | input (problem : InputProblem)
  /-- The settings are refused. -/
  | settings (cause : SettingsCause)
  deriving Repr

namespace InputCause

/-- The wording of a cause. -/
def message : InputCause → Text
  | emptyImage => "Image reference cannot be empty"
  | forbiddenCharacters image => "Image reference contains invalid characters: " ++ image
  | emptyRegistry => "Registry cannot be empty"
  | invalidHost registry => "Invalid registry host: " ++ registry
  | emptyPath => "File path cannot be empty"
  | missingFile path => "File not found: " ++ path
  | other reason => reason

end InputCause

namespace InputProblem

/-- The wording of a refusal; an empty field is not named. -/
def message (problem : InputProblem) : Text :=
  match problem.field with
  | some (c :: field) => "Validation failed for " ++ c :: field ++ ": " ++ problem.cause.message
  | _ => "Validation failed: " ++ problem.cause.message

end InputProblem

namespace SettingsCause

/-- The wording of a cause. -/
def message : SettingsCause → Text
  | missingFile path => "Config file not found: " ++ path
  | directory path =>
    "Failed to read config file " ++ path ++ ": [Errno 21] Is a directory: " ++ Text.quoted path
  | unreadable path reason => "Failed to read config file " ++ path ++ ": " ++ reason
  | notADocument path reason => "Failed to parse config file " ++ path ++ ": " ++ reason
  | notAMapping path => "Invalid config file format: " ++ path
  | unknownOptions path options =>
    "Unknown config option(s) in " ++ path ++ ": " ++ Text.joinWith ", " options
  | registryNotText value => "default_registry must be a string, got " ++ value.shown
  | registry problem => problem.message
  | unknownFormat value =>
    "Invalid output format: " ++ value.plain ++ ". Valid formats: text, json"
  | other reason => reason

end SettingsCause

namespace Problem

/-- Where the rules for image names are explained. -/
def rulesAddress : Text := "http://bit.ly/docker_image_fmt"

/-- What is logged on a name and the rules that its parts break, line by line. -/
def violationLines (name : Text) (violations : List Violation) : List Text :=
  ("Given image name '" ++ name ++ "' is invalid:") ::
    violations.map (fun violation => "   * " ++ violation.message) ++
    ["See " ++ rulesAddress ++ " for more details"]

/-- A name as the report on a name that cannot be taken apart shows it. -/
def shownName : Option Text → Text
  | none => "None"
  | some name => Text.quoted name

/-- The report on a problem. -/
def message : Problem → Text
  | malformed name => shownName name ++ " is not a proper image name ([registry/][repo][:port])"
  | invalid name violations => Text.joinWith "\n" <|
    ("Given image name '" ++ name ++ "' is invalid:") ::
      violations.map (fun violation => "   * " ++ violation.message) ++
      ["See " ++ rulesAddress ++ " for more details"]
  | input problem => problem.message
  | settings cause => cause.message

/-- The lines in which a problem is logged: one for each broken rule, where that is the problem. -/
def lines : Problem → List Text
  | invalid name violations => violationLines name violations
  | problem => [problem.message]

end Problem

/-- A condition that stops a command without a report. -/
inductive Fault where
  /-- What a path leads to cannot be found out. -/
  | unreachable
  /-- A file does not hold text. -/
  | undecodable
  /-- The list of images is a directory. -/
  | directory
  /-- The list of images cannot be opened. -/
  | unreadable
  /-- A document has a key that names no setting and is not even a text. -/
  | keyNotText
  /-- A field of a report is missing. -/
  | missingField
  /-- The file with the settings is asked for but left blank. -/
  | blankSettingsPath
  /-- The tag is asked for but left blank. -/
  | blankTag
  deriving DecidableEq, Repr

/-- Why there is no result. -/
inductive Failure where
  /-- A problem, which is reported. -/
  | problem (p : Problem)
  /-- A fault, which is not. -/
  | fault (f : Fault)
  deriving Repr

end ImageNaming
