import ImageNaming.Options.Word
import ImageNaming.Text.Quoted

/-!
# Reading a command line

The words of a command line are read from left to right. A switch that takes a value takes what is
attached to it or else the next word, which has to be an argument; two dashes attached to it leave
the value blank. What is attached to a letter that takes no value has to be further letters; an
equals sign may stand in front of them behind the first letter of the word and nowhere else. The
operands are the first arguments that no switch takes: one of them, or all up to the next switch;
those that come later have no place.
-/

namespace ImageNaming.Options

/-! ## Switches in one word -/

/-- The switches that one word names. -/
structure Bundle where
  /-- The switches that are settled within the word. -/
  uses : List Use
  /-- The last switch, if nothing is attached to it. -/
  last : Option Switch := none

/-- The value that is attached to a switch, unless it is left blank. -/
def attachedValue (t : Text) : Option Text := if t = ['-', '-'] then none else some t

/-- The switches of a word that names `s` by its letter, with the text `t` behind it. -/
def Bundle.ofLetters (usage : Usage) (s : Switch) (t : Text) : Except Stop Bundle :=
  if s.takesValue then .ok { uses := [⟨s, attachedValue t⟩] }
  else
    match t with
    | [] => .error (.unusedValue s t)
    | c :: rest =>
      match usage.ofLetter? c with
      | none => .error (.unusedValue s t)
      | some next =>
        if rest.isEmpty then .ok { uses := [⟨s, none⟩], last := some next }
        else do
          let bundle ← Bundle.ofLetters usage next rest
          return { bundle with uses := ⟨s, none⟩ :: bundle.uses }

/-- The switches of a word that names `s`, with the text attached to it if there is one. -/
def Bundle.of (usage : Usage) (s : Switch) (byLetter : Bool) : Option Text → Except Stop Bundle
  | none => .ok { uses := [], last := some s }
  | some t =>
    if byLetter then Bundle.ofLetters usage s t
    else if s.takesValue then .ok { uses := [⟨s, attachedValue t⟩] }
    else .error (.unusedValue s t)

/-! ## From left to right -/

/-- How far the operands have been read. -/
inductive Phase where
  /-- There was none yet. -/
  | waiting
  /-- The last word was one. -/
  | taking
  /-- Further arguments are no operands. -/
  | done
  deriving DecidableEq, Repr

/-- What has been read of a command line. -/
structure Progress where
  /-- What was given. -/
  given : Given := {}
  /-- How far the operands have been read. -/
  phase : Phase := .waiting
  /-- The words that have no place. -/
  extras : List Text := []

namespace Progress

/-- One more word without a place. -/
def addExtra (p : Progress) (t : Text) : Progress :=
  { p with extras := p.extras ++ [t], phase := if p.phase = .taking then .done else p.phase }

/-- One more operand. -/
def addOperand (p : Progress) (t : Text) : Progress :=
  { p with given := { p.given with operands := p.given.operands ++ [t] }, phase := .taking }

/-- The end of a run of operands. -/
def endRun (p : Progress) : Progress :=
  { p with phase := if p.phase = .taking then .done else p.phase }

/-- One more argument that no switch takes. -/
def addArgument (usage : Usage) (p : Progress) (t : Text) : Progress :=
  match p.phase, usage.operands with
  | .waiting, _ => p.addOperand t
  | .taking, .many => p.addOperand t
  | _, _ => p.addExtra t

/-- The separator. It belongs to the operands next to it. -/
def addSeparator (usage : Usage) (p : Progress) : Progress :=
  match p.phase, usage.operands with
  | .waiting, .one _ => p
  | .waiting, .many => { p with phase := .taking }
  | .taking, .one _ => { p with phase := .done }
  | .taking, .many => p
  | .done, _ => p.addExtra ['-', '-']

/-- One use of a switch. -/
def addUse (p : Progress) (use : Use) : Except Stop Progress :=
  let kept := { p.endRun with given := { p.given with uses := p.given.uses ++ [use] } }
  match use.switch.kind, use.value with
  | .help, _ => .error .help
  | .flag, _ => .ok kept
  | .value (choice :: choices), some value =>
    if (choice :: choices).contains value then .ok kept
    else .error (.invalidChoice use.switch value (choice :: choices))
  | .value _, _ => .ok kept

/-- Several uses of switches. -/
def addUses (p : Progress) (uses : List Use) : Except Stop Progress := uses.foldlM addUse p

end Progress

/-- The progress after the given words. -/
def readWords (usage : Usage) (p : Progress) : List Word → Except Stop Progress
  | [] => .ok p
  | .argument t :: rest => readWords usage (p.addArgument usage t) rest
  | .separator :: rest => readWords usage (p.addSeparator usage) rest
  | .unknown t :: rest => readWords usage (p.addExtra t) rest
  | .switch s byLetter attached :: rest => do
    let bundle ← Bundle.of usage s byLetter attached
    match bundle.last with
    | none => do
      let p ← p.addUses bundle.uses
      readWords usage p rest
    | some last =>
      if last.takesValue then
        match rest with
        | .argument value :: rest => do
          let p ← p.addUses (bundle.uses ++ [⟨last, some value⟩])
          readWords usage p rest
        | _ => .error (.missingValue last)
      else do
        let p ← p.addUses (bundle.uses ++ [⟨last, none⟩])
        readWords usage p rest

/-- What is given on a command line. -/
def read (usage : Usage) (texts : List Text) : Except Stop Given := do
  let words ← Word.ofTexts usage texts
  let p ← readWords usage {} words
  match usage.operands, p.given.operands with
  | .one name, [] => throw (.missingOperand name)
  | _, _ => if p.extras.isEmpty then return p.given else throw (.unrecognized p.extras)

namespace Stop

/-- The message about one switch. -/
def about (s : Switch) (message : Text) : Text := "argument " ++ s.title ++ ": " ++ message

/-- What is said about a command line that is not followed. Help says nothing here. -/
def message : Stop → Text
  | help => []
  | ambiguous word candidates =>
    "ambiguous option: " ++ word ++ " could match " ++
      Text.joinWith ", " (candidates.map Switch.longForm)
  | missingValue s => about s "expected one argument"
  | unusedValue s value => about s ("ignored explicit argument " ++ Text.quoted value)
  | invalidChoice s value choices =>
    about s ("invalid choice: " ++ Text.quoted value ++ " (choose from " ++
      Text.joinWith ", " (choices.map Text.quoted) ++ ")")
  | missingOperand name => "the following arguments are required: " ++ name
  | unrecognized words => "unrecognized arguments: " ++ Text.joinWith " " words
  | incomplete message => message

end Stop

end ImageNaming.Options
