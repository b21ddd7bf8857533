import ImageNaming.Grammar
import ImageNaming.Reference.Basic

/-!
# Violations

A reference is checked part by part, and every part that breaks its rule is reported: first the
length of the repository, then the registry, the image, the user, the tag and the digest. A part
that is not given breaks no rule.
-/

namespace ImageNaming

/-- One rule that a part of a reference breaks. -/
structure Violation where
  /-- The name of the part. -/
  part : Text
  /-- The value of the part. -/
  value : Text
  /-- The rule that the value breaks. -/
  rule : Text
  /-- The report for the user. -/
  message : Text
  deriving DecidableEq, Repr

namespace Violation

/-- The violation of a value that its pattern does not describe. -/
def ofPattern (part value : Text) (rule : Rule) : Violation where
  part := part
  value := value
  rule := rule.text
  message := part ++ " part '" ++ value ++ "' doesn't match allowed pattern '" ++ rule.text ++ "'"

/-- The greatest number of characters in a repository. -/
def longestRepository : Nat := 255

/-- The violation of a repository with too many characters. -/
def ofLength (repository : Text) : Violation where
  part := "repository"
  value := repository
  rule := "max " ++ Text.ofNat longestRepository ++ " characters"
  message := "Repository name must not be more than " ++ Text.ofNat longestRepository ++
    " characters"

end Violation

namespace Reference

/-- The violation of one part, if it is given and breaks its rule. -/
def partViolation (part : Text) (rule : Rule) : Option Text → List Violation
  | none => []
  | some value => if rule.allows value then [] else [.ofPattern part value rule]

/-- The violation of the limit on the length of a repository, if it is broken. -/
def lengthViolation (repository : Text) : List Violation :=
  if Violation.longestRepository < repository.length then [.ofLength repository] else []

/-- Every rule that a reference breaks. -/
def violations (r : Reference) : List Violation :=
  lengthViolation r.repository ++
    partViolation "registry" Grammar.hostRule r.registry ++
    partViolation "image" Grammar.pathRule r.simpleName ++
    partViolation "user" Grammar.componentRule r.user ++
    partViolation "tag" Grammar.tagRule r.tag ++
    partViolation "digest" Grammar.digestRule r.digest

end Reference

end ImageNaming
