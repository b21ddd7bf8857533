import ImageNaming.Files.Tree
import ImageNaming.Input
import ImageNaming.Report
import ImageNaming.Text.Lines

/-!
# Settings

The settings are a default registry and an output format. They come from a document that a user
writes, so until they are validated each of them may be any value. Validation drops the blanks
around the registry, and keeps that even where the format is then refused.
-/

namespace ImageNaming

open Document (Reader Scalar Value)

/-- The settings. -/
structure Settings where
  /-- The registry for names without one. -/
  defaultRegistry : Value := .null
  /-- The format in which a report is written. -/
  outputFormat : Value := .text Format.text.name
  deriving Repr

namespace Settings

/-- The key of the default registry. -/
def registryKey : Text := "default_registry"

/-- The key of the output format. -/
def formatKey : Text := "output_format"

/-- A default registry as it is kept: a host without the blanks at its ends, or no value. -/
def cleanRegistry : Value → Except SettingsCause Value
  | .scalar .null => .ok .null
  | .scalar (.text t) =>
    match Input.registryHost (some t) with
    | .ok host => .ok (.text host)
    | .error cause => .error (.registry ⟨Input.registryField, cause⟩)
  | value => .error (.registryNotText value)

/-- Whether a value names a format. -/
def namesFormat : Value → Bool
  | .scalar (.text t) => (Format.ofName? t).isSome
  | _ => false

/-- The settings after validation, and why they are refused if they are. -/
def validate (s : Settings) : Settings × Except SettingsCause Unit :=
  match cleanRegistry s.defaultRegistry with
  | .error cause => (s, .error cause)
  | .ok registry =>
    let cleaned := { s with defaultRegistry := registry }
    if namesFormat s.outputFormat then (cleaned, .ok ())
    else (cleaned, .error (.unknownFormat s.outputFormat))

/-- The settings after validation, if they are not refused. -/
def validated (s : Settings) : Except SettingsCause Settings :=
  let (cleaned, verdict) := s.validate
  verdict.map fun () => cleaned

/-- The registry for names without one, if the settings have a text for it. -/
def fallback (s : Settings) : Option Text :=
  match s.defaultRegistry with
  | .scalar (.text t) => some t
  | _ => none

/-- The format of reports. -/
def format (s : Settings) : Format :=
  match s.outputFormat with
  | .scalar (.text t) => .ofName t
  | _ => .text

/-- The value of a key in a mapping. -/
def valueOf? (key : Text) (entries : List (Scalar × Value)) : Option Value :=
  entries.lookup (.text key)

/-- Whether a key of a document is that of a setting. -/
def isKnown (key : Scalar) : Bool := key = .text registryKey || key = .text formatKey

/-- The text of a key. -/
def keyText? : Scalar → Option Text
  | .text t => some t
  | _ => none

/-- The keys that name no setting, as texts in ascending order; a fault if one is no text. -/
def unknownKeys (entries : List (Scalar × Value)) : Except Fault (List Text) :=
  match ((entries.map (·.1)).filter (!isKnown ·)).mapM keyText? with
  | none => .error .keyNotText
  | some keys => .ok (keys.mergeSort Text.isAtMost)

/-- The refusal of the settings. -/
def refuse {α : Type} (cause : SettingsCause) : Except Failure α :=
  .error (.problem (.settings cause))

/-- The settings that a document gives, validated. A document without a value gives none of them,
and what it does not give is as if there were no document. -/
def ofDocument (path : Text) (document : Value) : Except Failure Settings :=
  let fromEntries (entries : List (Scalar × Value)) : Except Failure Settings :=
    match unknownKeys entries with
    | .error fault => .error (.fault fault)
    | .ok (key :: keys) => refuse (.unknownOptions path (key :: keys))
    | .ok [] =>
      let given : Settings := {
        defaultRegistry := (valueOf? registryKey entries).getD .null
        outputFormat := (valueOf? formatKey entries).getD (.text Format.text.name) }
      match given.validated with
      | .ok settings => .ok settings
      | .error cause => refuse cause
  match document with
  | .scalar .null => fromEntries []
  | .mapping entries => fromEntries entries
  | _ => refuse (.notAMapping path)

/-- The settings that the content of a file gives. The reader of documents is given its text with
every line end as a single line feed. A file that does not hold text is refused only if the reader
refuses it for something else first. -/
def ofContent (reader : Reader) (path : Text) (content : ByteArray) : Except Failure Settings :=
  match Entry.decode? content with
  | none =>
    match reader.readBroken path content with
    | some reason => refuse (.notADocument path reason)
    | none => .error (.fault .undecodable)
  | some t =>
    match reader.read path (Text.unifyLineEnds t) with
    | .error reason => refuse (.notADocument path reason)
    | .ok document => ofDocument path document

/-- The file that is read where none is named. -/
def defaultPath : Path := .ofText ".imageref.yaml"

/-- The settings in the file at a path, or in the default file. Only the latter may be missing. -/
def load (reader : Reader) (files : Files) (path : Option Path := none) : Logged Settings :=
  let place := path.getD defaultPath
  match files place with
  | none =>
    if path.isSome then Logged.fail (.problem (.settings (.missingFile place.text)))
    else do
      Logged.debug ("No config file at " ++ place.text ++ ", using defaults")
      return {}
  | some .unreachable => Logged.fail (.fault .unreachable)
  | some .directory => Logged.fail (.problem (.settings (.directory place.text)))
  | some (.unreadable reason) =>
    Logged.fail (.problem (.settings (.unreadable place.text reason)))
  | some (.file content) =>
    match ofContent reader place.text content with
    | .error failure => Logged.fail failure
    | .ok settings => do
      Logged.debug ("Loaded config from " ++ place.text)
      return settings

end Settings

end ImageNaming
