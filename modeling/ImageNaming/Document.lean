import ImageNaming.Number.Shortest
import ImageNaming.Text.Quoted

/-!
# Documents

A document holds a scalar, a list or a mapping. The keys of a mapping are scalars, and no key comes
twice. Messages show a value in full, with texts quoted.

How documents are written is not described here: what turns a text into a value is a `Reader`, and
all that is done with documents is done for any reader.
-/

namespace ImageNaming.Document

/-- A value without parts. -/
inductive Scalar where
  /-- No value. -/
  | null
  /-- A truth value. -/
  | bool (b : Bool)
  /-- A whole number. -/
  | int (n : Int)
  /-- A number with a decimal point. -/
  | number (x : Binary64)
  /-- A text. -/
  | text (t : Text)
  /-- Any other value, such as a date or a run of bytes, by the text that shows it in full and the
  text that stands for it within a sentence. -/
  | other (full inSentence : Text)
  deriving DecidableEq, Repr

/-- A value of a document. -/
inductive Value where
  /-- A value without parts. -/
  | scalar (s : Scalar)
  /-- A list of values. -/
  | list (items : List Value)
  /-- A mapping, as its entries in order. -/
  | mapping (entries : List (Scalar × Value))
  deriving Repr

/-- A scalar as messages show it. -/
def Scalar.shown : Scalar → Text
  | null => "None"
  | bool true => "True"
  | bool false => "False"
  | int n => Text.ofInt n
  | number x => x.written
  | text t => Text.quoted t
  | other full _ => full

namespace Value

/-- No value. -/
def null : Value := scalar .null

/-- A text as a value. -/
def text (t : Text) : Value := scalar (.text t)

mutual

/-- A value as messages show it. -/
def shown : Value → Text
  | scalar s => s.shown
  | list items => "[" ++ Text.joinWith ", " (shownItems items) ++ "]"
  | mapping entries => "\x7b" ++ Text.joinWith ", " (shownEntries entries) ++ "\x7d"

/-- The items of a list as messages show them. -/
def shownItems : List Value → List Text
  | [] => []
  | item :: items => item.shown :: shownItems items

/-- The entries of a mapping as messages show them. -/
def shownEntries : List (Scalar × Value) → List Text
  | [] => []
  | (key, value) :: entries => (key.shown ++ ": " ++ value.shown) :: shownEntries entries

end

/-- A value within a sentence: a text stands for itself, and all else that has no text of its own
for this is shown. -/
def plain : Value → Text
  | scalar (.text t) => t
  | scalar (.other _ inSentence) => inSentence
  | value => value.shown

end Value

/-- A reader of documents. For every text it has a value or a refusal. It knows the name of the file
that it reads and may mention it where it refuses the file. -/
structure Reader where
  /-- The value of a text, or the words in which the text is refused. -/
  read : (name t : Text) → Except Text Value
  /-- The words in which a file is refused that does not hold text, if that is for something in
  front of the first bytes that are no text. -/
  readBroken : (name : Text) → (content : ByteArray) → Option Text

end ImageNaming.Document
