import ImageNaming.Log
import ImageNaming.Reference.Split

/-!
# Checking a name

A written name is decomposed into a reference, and the reference is checked against the grammar.
Only a name whose end cannot be found is malformed; any other one gives a result, with all rules
that its parts break. An explicit tag takes the place of the tag in the name, and a name with
neither tag nor digest means the latest version.
-/

namespace ImageNaming

/-- What a check of a name found. -/
structure CheckResult where
  /-- The name, written anew from its parts. -/
  attemptedName : Text
  /-- The reference, if no rule is broken. -/
  reference : Option Reference := none
  /-- The rules that are broken. -/
  violations : List Violation := []
  deriving DecidableEq, Repr

namespace CheckResult

/-- Whether no rule is broken. -/
def isOk (result : CheckResult) : Bool := result.violations.isEmpty

/-- The reference, or the problem that rules are broken. -/
def outcome (result : CheckResult) : Except Problem (Option Reference) :=
  if result.isOk then .ok result.reference
  else .error (.invalid result.attemptedName result.violations)

/-- The section on what a check found. -/
def report (title : Text) (result : CheckResult) : List Record :=
  Record.framed title (Problem.violationLines result.attemptedName result.violations)

end CheckResult

namespace Reference

/-- The tag of a name without a tag and without a digest. -/
def latest : Text := "latest"

/-- The path and the tag of a name without its digest. -/
def splitTag (name : Text) (explicitTag : Option Text := none) :
    Except Problem (Text × Option Text) :=
  match splitTag? name with
  | none => .error (.malformed (some name))
  | some (path, embeddedTag) => .ok (path, explicitTag.or embeddedTag)

/-- The tag of a name in which `tag` and `digest` were found. -/
def effectiveTag (tag digest : Option Text) : Option Text :=
  if tag.isNone && digest.isNone then some latest else tag

/-- The parts of a name, whether or not they obey the rules. -/
def decompose (raw : Option Text) (explicitTag : Option Text := none) :
    Except Problem Reference :=
  match raw with
  | none => .error (.malformed none)
  | some raw =>
    let (name, digest) := splitDigest raw
    match splitTag name explicitTag with
    | .error problem => .error problem
    | .ok (path, tag) =>
      let (registry, repository) := splitRegistry path
      .ok {
        repository := repository
        registry := registry
        tag := effectiveTag tag digest
        digest := digest }

/-- What a check of a reference finds. -/
def checkResult (r : Reference) : CheckResult where
  attemptedName := r.render
  reference := if r.violations.isEmpty then some r else none
  violations := r.violations

/-- The reference itself, or the problem that it breaks rules. -/
def validated (r : Reference) : Except Problem Reference :=
  if r.violations.isEmpty then .ok r else .error (.invalid r.render r.violations)

/-- The check of a name. -/
def check (raw : Option Text) (explicitTag : Option Text := none) : Except Problem CheckResult :=
  (decompose raw explicitTag).map checkResult

/-- The reference of a name that obeys all rules. -/
def parse (raw : Option Text) (explicitTag : Option Text := none) : Except Problem Reference :=
  decompose raw explicitTag >>= validated

/-- An optional part within a sentence. -/
def shownPart : Option Text → Text
  | none => "None"
  | some part => part

/-- What is noted of the check of a name with the given parts. -/
def checkNote (raw : Option Text) (r : Reference) : Text :=
  if r.violations.isEmpty then
    "Parsed " ++ Problem.shownName raw ++ ": registry=" ++ shownPart r.registry ++
      ", repository=" ++ r.repository ++ ", tag=" ++ shownPart r.tag ++
      ", digest=" ++ shownPart r.digest
  else
    "Rejected " ++ Problem.shownName raw ++ " with " ++ Text.ofNat r.violations.length ++
      " violation(s)"

/-- `parse`, with a note on every name that can be taken apart. -/
def parseLogged (raw : Option Text) (explicitTag : Option Text := none) : Logged Reference := do
  let parts ← Logged.ofExcept (decompose raw explicitTag)
  Logged.debug (checkNote raw parts)
  Logged.ofExcept parts.validated

end Reference

end ImageNaming
