import ImageNaming.Text.Basic

/-!
# Command-line options

A command takes operands and switches. A switch has a short form, a dash and a letter, and a long
form, two dashes and a word; it may take a value, and the value may have to be one of a few. What
was given on a command line is kept in order, because the last use of a switch counts.
-/

namespace ImageNaming.Options

/-- What a switch does. -/
inductive Kind where
  /-- It asks for help, and nothing else is done. -/
  | help
  /-- It is given or not. -/
  | flag
  /-- It takes a value; if there are choices, one of them. -/
  | value (choices : List Text)
  deriving DecidableEq, Repr

/-- A switch of a command. -/
structure Switch where
  /-- The letter of its short form. -/
  short : Char
  /-- The word of its long form. -/
  long : Text
  /-- What it does. -/
  kind : Kind
  deriving DecidableEq, Repr

namespace Switch

/-- The short form, with its dash. -/
def shortForm (s : Switch) : Text := ['-', s.short]

/-- The long form, with its dashes. -/
def longForm (s : Switch) : Text := "--" ++ s.long

/-- Both forms, as messages name a switch. -/
def title (s : Switch) : Text := s.shortForm ++ "/" ++ s.longForm

/-- Whether a switch takes a value. -/
def takesValue (s : Switch) : Bool :=
  match s.kind with
  | .value _ => true
  | _ => false

end Switch

/-- The operands that a command takes. -/
inductive Operands where
  /-- Exactly one, of a given name. -/
  | one (name : Text)
  /-- Any number of them, all together. -/
  | many
  deriving DecidableEq, Repr

/-- What a command takes. -/
structure Usage where
  /-- The name of the command in messages. -/
  command : Text
  /-- Its switches, in the order in which messages list them. -/
  switches : List Switch
  /-- Its operands. -/
  operands : Operands
  deriving Repr

namespace Usage

/-- The switch of a letter. -/
def ofLetter? (usage : Usage) (c : Char) : Option Switch :=
  usage.switches.find? fun s => s.short = c

/-- The switch of which a text is the short or the long form, and whether it is the short one. -/
def ofForm? (usage : Usage) (t : Text) : Option (Switch × Bool) :=
  (usage.switches.find? fun s => s.shortForm = t || s.longForm = t).map fun s =>
    (s, s.shortForm = t)

/-- The switches whose long form begins with a text. -/
def beginningWith (usage : Usage) (t : Text) : List Switch :=
  usage.switches.filter fun s => t.isPrefixOf s.longForm

end Usage

/-- Why a command line is not followed. -/
inductive Stop where
  /-- Help is asked for. -/
  | help
  /-- A word may be short for several switches. -/
  | ambiguous (word : Text) (candidates : List Switch)
  /-- A switch that takes a value has none. -/
  | missingValue (s : Switch)
  /-- A switch that takes no value has one. -/
  | unusedValue (s : Switch) (value : Text)
  /-- The value of a switch is none of the choices. -/
  | invalidChoice (s : Switch) (value : Text) (choices : List Text)
  /-- An operand is missing. -/
  | missingOperand (name : Text)
  /-- There are words that have no place. -/
  | unrecognized (words : List Text)
  /-- What the command needs is missing, in its own words. -/
  | incomplete (message : Text)
  deriving DecidableEq, Repr

/-- A use of a switch. -/
structure Use where
  /-- The switch. -/
  switch : Switch
  /-- Its value, if it takes one and is not left blank. -/
  value : Option Text := none
  deriving DecidableEq, Repr

/-- What a command line says about a switch that takes a value. -/
inductive Assignment (α : Type) where
  /-- The switch is not used. -/
  | absent
  /-- The last use of the switch leaves its value blank. -/
  | blank
  /-- The last use of the switch has this value. -/
  | value (a : α)
  deriving DecidableEq, Repr

namespace Assignment

variable {α β : Type}

/-- The assignment with its value, if it has one, under a function. -/
def map (f : α → β) : Assignment α → Assignment β
  | absent => absent
  | blank => blank
  | value a => value (f a)

/-- Whether the switch is not used. -/
def isAbsent : Assignment α → Bool
  | absent => true
  | _ => false

/-- The value, if there is one. -/
def toOption : Assignment α → Option α
  | value a => some a
  | _ => none

end Assignment

/-- What was given on a command line. -/
structure Given where
  /-- The operands, in order. -/
  operands : List Text := []
  /-- The uses of switches, in order. -/
  uses : List Use := []
  deriving DecidableEq, Repr

namespace Given

/-- What is said about the switch of a letter: its last use counts. -/
def assignment (given : Given) (c : Char) : Assignment Text :=
  match given.uses.reverse.find? fun use => use.switch.short = c with
  | none => .absent
  | some use => use.value.elim .blank .value

/-- Whether the switch of a letter is given. -/
def has (given : Given) (c : Char) : Bool := given.uses.any fun use => use.switch.short = c

end Given

end ImageNaming.Options
