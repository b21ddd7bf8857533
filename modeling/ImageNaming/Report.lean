import ImageNaming.Reference.Basic
import ImageNaming.Text.JsonString

/-!
# Reports

A report shows the parts of a reference and what follows from them: field by field, always in the
same order, either as aligned lines for a reader or as a JSON object for a program. A report may be
incomplete; then it has no lines, because each of them is expected.
-/

namespace ImageNaming

/-- How a report is written. -/
inductive Format where
  /-- As aligned lines. -/
  | text
  /-- As a JSON object. -/
  | json
  deriving DecidableEq, Repr

namespace Format

/-- The name of a format. -/
def name : Format → Text
  | text => "text"
  | json => "json"

/-- The format of that name, if there is one. -/
def ofName? (t : Text) : Option Format :=
  if t = text.name then some text else if t = json.name then some json else none

/-- The format of that name; every other name stands for lines. -/
def ofName (t : Text) : Format := (ofName? t).getD text

end Format

/-- What a report shows in one place. -/
inductive Cell where
  /-- Nothing. -/
  | absent
  /-- A text. -/
  | text (t : Text)
  /-- Yes or no. -/
  | flag (b : Bool)
  /-- A whole number. -/
  | count (n : Int)
  deriving DecidableEq, Repr

namespace Cell

/-- An optional text. -/
def ofOption : Option Text → Cell
  | none => absent
  | some t => text t

/-- A cell behind a label. -/
def line : Cell → Text
  | absent => "-"
  | text t => t
  | flag true => "yes"
  | flag false => "no"
  | count n => Text.ofInt n

/-- A cell as a JSON value. -/
def json : Cell → Text
  | absent => "null"
  | text t => Text.jsonString t
  | flag true => "true"
  | flag false => "false"
  | count n => Text.ofInt n

end Cell

/-- A place of a report. -/
inductive Field where
  | registry
  | repository
  | user
  | simpleName
  | tag
  | digest
  | fullyQualified
  | nameWithoutTag
  | fullName
  deriving DecidableEq, Repr

namespace Field

/-- The fields in the order in which reports show them. -/
def all : List Field :=
  [registry, repository, user, simpleName, tag, digest, fullyQualified, nameWithoutTag, fullName]

/-- The key of a field in a JSON object. -/
def key : Field → Text
  | registry => "registry"
  | repository => "repository"
  | user => "user"
  | simpleName => "simple_name"
  | tag => "tag"
  | digest => "digest"
  | fullyQualified => "fully_qualified"
  | nameWithoutTag => "name_without_tag"
  | fullName => "full_name"

/-- The label of a field on a line. -/
def label : Field → Text
  | registry => "Registry"
  | repository => "Repository"
  | user => "User"
  | simpleName => "Simple name"
  | tag => "Tag"
  | digest => "Digest"
  | fullyQualified => "Fully qualified"
  | nameWithoutTag => "Name without tag"
  | fullName => "Full name"

/-- The column that the labels and their colons fill. -/
def labelWidth : Nat := (all.map fun field => field.label.length).foldl max 0 + 1

/-- A label and its colon, filled up with spaces to the width of the column. -/
def paddedLabel (field : Field) : Text :=
  let labelled := field.label ++ ":"
  labelled ++ List.replicate (labelWidth - labelled.length) ' '

theorem mem_all (field : Field) : field ∈ all := by cases field <;> decide

end Field

/-- What is shown in each place; nothing where the report is incomplete. -/
abbrev Report := Field → Option Cell

namespace Report

/-- A field and its cell as a line. -/
def line (field : Field) (cell : Cell) : Text := field.paddedLabel ++ " " ++ cell.line

/-- The lines of a complete report. -/
def lines? (report : Report) : Option (List Text) :=
  Field.all.mapM fun field => (report field).map (line field)

/-- A field and its cell as a member of a JSON object. -/
def member (field : Field) (cell : Cell) : Text :=
  "  " ++ Text.jsonString field.key ++ ": " ++ cell.json

/-- A report as a JSON object of the fields it has, one on each line. -/
def object (report : Report) : Text :=
  match Field.all.filterMap fun field => (report field).map (member field) with
  | [] => "\x7b\x7d"
  | members => "\x7b\n" ++ Text.joinWith ",\n" members ++ "\n\x7d"

/-- A report in one of the formats. There is none of an incomplete report as lines. -/
def write? (report : Report) : Format → Option Text
  | .text => report.lines?.map (Text.joinWith "\n")
  | .json => some report.object

end Report

namespace Reference

/-- What a report shows of a reference in one place, under a fallback registry. -/
def cell (r : Reference) (fallback : Option Text) : Field → Cell
  | .registry => .ofOption r.registry
  | .repository => .text r.repository
  | .user => .ofOption r.user
  | .simpleName => .text r.simpleName
  | .tag => .ofOption r.tag
  | .digest => .ofOption r.digest
  | .fullyQualified => .flag r.isFullyQualified
  | .nameWithoutTag => .text (r.untaggedName fallback)
  | .fullName => .text (r.fullName fallback)

/-- The report on a reference, under a fallback registry. -/
def report (r : Reference) (fallback : Option Text := none) : Report :=
  fun field => some (r.cell fallback field)

end Reference

end ImageNaming
