import ImageNaming.Problem

/-!
# The log

While it works, the library notes what happens in a log of records. `Logged` is a computation that
keeps a log and may fail: the records up to the failure remain.
-/

namespace ImageNaming

/-- How much a record matters. -/
inductive Level where
  /-- Of interest when something is searched for. -/
  | debug
  /-- Of interest to every user. -/
  | info
  /-- Something is not as it should be. -/
  | warning
  /-- Something was refused. -/
  | error
  deriving DecidableEq, Repr

/-- An entry of the log. -/
structure Record where
  /-- How much it matters. -/
  level : Level
  /-- What it says. -/
  message : Text
  deriving DecidableEq, Repr

namespace Level

/-- The name of a level. -/
def name : Level → Text
  | debug => "DEBUG"
  | info => "INFO"
  | warning => "WARNING"
  | error => "ERROR"

/-- Whether a record of this level is shown: those for debugging only if they are asked for. -/
def isShown (verbose : Bool) : Level → Bool
  | debug => verbose
  | _ => true

end Level

/-- A result or a failure, with the records noted until then. -/
structure Logged (α : Type) where
  /-- The result. -/
  outcome : Except Failure α
  /-- The records, in the order in which they were noted. -/
  log : List Record := []

namespace Logged

variable {α β : Type}

/-- A result without a record. -/
def pure (a : α) : Logged α := ⟨.ok a, []⟩

/-- One computation and then, if it has a result, another one. -/
def bind (x : Logged α) (f : α → Logged β) : Logged β :=
  match x.outcome with
  | .error failure => ⟨.error failure, x.log⟩
  | .ok a => ⟨(f a).outcome, x.log ++ (f a).log⟩

instance : Monad Logged where
  pure := Logged.pure
  bind := Logged.bind

/-- A failure without a record. -/
def fail (failure : Failure) : Logged α := ⟨.error failure, []⟩

/-- A result or a failure without a record. -/
def ofResult (result : Except Failure α) : Logged α := ⟨result, []⟩

/-- A computation that keeps no log. -/
def ofExcept : Except Problem α → Logged α
  | .ok a => .pure a
  | .error problem => .fail (.problem problem)

/-- Note the given records. -/
def note (records : List Record) : Logged Unit := ⟨.ok (), records⟩

/-- Note something for debugging. -/
def debug (message : Text) : Logged Unit := note [⟨.debug, message⟩]

end Logged

namespace Record

/-- The width of the lines that set a section off. -/
def frameWidth : Nat := 60

/-- A section of records between two heavy lines: a title and what it is about. -/
def framed (title : Text) (lines : List Text) : List Record :=
  let frame := ⟨.error, List.replicate frameWidth '='⟩
  [frame, ⟨.error, title⟩] ++ lines.map (Record.mk .error) ++ [frame]

/-- The section on a problem. -/
def report (title : Text) (problem : Problem) : List Record := framed title problem.lines

/-- How many of how many image names are valid, between two light lines. -/
def summary (valid total : Int) : List Record :=
  let level := if valid = total then .info else .warning
  let frame := ⟨level, List.replicate frameWidth '-'⟩
  let count := Text.ofInt valid ++ "/" ++ Text.ofInt total ++ " image reference(s) valid"
  [frame, ⟨level, count⟩, frame]

/-- A record as a line of the log, behind the mark for the time of day. -/
def line (record : Record) : Text :=
  "HH:MM:SS - " ++ record.level.name ++ " - " ++ record.message

end Record

end ImageNaming
