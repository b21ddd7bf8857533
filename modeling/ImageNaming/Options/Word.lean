import ImageNaming.Options.Basic
import ImageNaming.Text.Digit

/-!
# Words of a command line

Each word of a command line is an argument or names a switch. A switch may be named by any beginning
of its long form that no other long form shares, and a value may be attached to either form: behind
an equals sign, or directly behind the letter of the short one. A word that begins with a dash and
names no switch is still an argument if it is a lone dash or a negative number or holds a space.
Behind a word of two dashes all words are arguments.
-/

namespace ImageNaming.Options

/-- A word of a command line. -/
inductive Word where
  /-- An operand or the value of a switch. -/
  | argument (t : Text)
  /-- The first word of two dashes. -/
  | separator
  /-- A switch, whether it is named by its letter, and what is attached to it. -/
  | switch (s : Switch) (byLetter : Bool) (attached : Option Text)
  /-- A word that looks like a switch and is none. -/
  | unknown (t : Text)
  deriving DecidableEq, Repr

namespace Word

/-- The text before the first equals sign and, if there is one, the text behind it. -/
def splitEquals (t : Text) : Text × Option Text :=
  match t.dropWhile (· ≠ '=') with
  | [] => (t, none)
  | _ :: behind => (t.takeWhile (· ≠ '='), some behind)

/-- Whether a text is a negative number: a dash and digits, with at most one point that has digits
behind it. A line feed behind it is let pass. -/
def isNegativeNumber (t : Text) : Bool :=
  let body := if t.getLast? = some '\n' then t.dropLast else t
  match body with
  | '-' :: digits =>
    match digits.dropWhile Text.isDecimalDigit with
    | [] => !digits.isEmpty
    | '.' :: fraction => !fraction.isEmpty && fraction.all Text.isDecimalDigit
    | _ => false
  | _ => false

/-- The switches that a word which is no exact form may name. -/
def readings (usage : Usage) : Text → List Word
  | '-' :: '-' :: rest =>
    let (form, attached) := splitEquals ('-' :: '-' :: rest)
    (usage.beginningWith form).map fun s => switch s false attached
  | '-' :: c :: rest =>
    (usage.ofLetter? c).toList.map fun s => switch s true (some rest)
  | _ => []

/-- The switch of a word. -/
def switch? : Word → Option Switch
  | switch s _ _ => some s
  | _ => none

/-- A word that begins with a dash. -/
def ofDashed (usage : Usage) (t : Text) : Except Stop Word :=
  let (form, attached) := splitEquals t
  match usage.ofForm? t, attached.isSome, usage.ofForm? form with
  | some (s, byLetter), _, _ => .ok (switch s byLetter none)
  | none, true, some (s, byLetter) => .ok (switch s byLetter attached)
  | none, _, _ =>
    match readings usage t with
    | [word] => .ok word
    | [] =>
      if t = ['-'] || isNegativeNumber t || t.contains ' ' then .ok (argument t)
      else .ok (unknown t)
    | words => .error (.ambiguous t (words.filterMap switch?))

/-- A word in front of the first separator. -/
def ofText (usage : Usage) (t : Text) : Except Stop Word :=
  if t.head? = some '-' then ofDashed usage t else .ok (argument t)

/-- The words of a command line. -/
def ofTexts (usage : Usage) : List Text → Except Stop (List Word)
  | [] => .ok []
  | t :: rest =>
    if t = ['-', '-'] then .ok (separator :: rest.map argument)
    else do
      let word ← ofText usage t
      let words ← ofTexts usage rest
      return word :: words

end Word

end ImageNaming.Options
