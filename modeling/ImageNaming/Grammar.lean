import ImageNaming.Pattern.Match
import ImageNaming.Pattern.Written

/-!
# The naming grammar

The rules for the parts of an image name. A repository is a path of components; a component is made
of runs of lowercase letters and digits, joined by a dot, one or two underscores or any number of
hyphens. A host is a dotted name with an optional port, a tag is a word of at most 128 characters,
and a digest is the fingerprint `sha256:` of at least 32 characters.

The rules for names are stated to the user in a form that lets separators be empty. That form
describes the same texts as the one that is matched, but describes each of them in many ways.
-/

namespace ImageNaming

/-- A rule of the grammar. -/
structure Rule where
  /-- The pattern that values are matched with. -/
  pattern : Pattern
  /-- The pattern that is stated where a value breaks the rule. -/
  stated : Pattern := pattern
  /-- Whether the rule is stated between the marks for the start and the end of a text. -/
  anchored : Bool := false

namespace Rule

/-- Whether a value obeys a rule. -/
def allows (rule : Rule) (value : Text) : Bool := rule.pattern.accepts value

/-- The text of a rule in messages. -/
def text (rule : Rule) : Text :=
  if rule.anchored then "^" ++ rule.stated.written ++ "$" else rule.stated.written

end Rule

namespace Grammar

open Pattern ClassItem

/-- A run of lowercase letters and digits. -/
def run : Pattern := many1 (oneOf [range 'a' 'z', range '0' '9'])

/-- What joins two runs of a component. -/
def joint : Pattern :=
  alt (oneOf [single '.', single '_'])
    (alt (literal "__") (many1 (one '-')))

/-- Runs with a joint between each two. -/
def component : Pattern := seq run (many (seq joint run))

/-- What joins two runs in the stated form of the rule; it may be empty. -/
def statedJoint : Pattern :=
  alt (oneOf [single '.', single '_'])
    (alt (literal "__") (many (oneOf [single '-'])))

/-- The stated form of the rule for a component. -/
def statedComponent : Pattern :=
  seq run (optional (many1 (seq statedJoint run)))

/-- Components with a slash between each two. -/
def path : Pattern := seq component (many (seq (one '/') component))

/-- The stated form of the rule for a path. -/
def statedPath : Pattern :=
  seq statedComponent (optional (many1 (seq (one '/') statedComponent)))

/-- The entries of the class of ASCII letters and digits. -/
def alphanumeric : List ClassItem := [range 'a' 'z', range 'A' 'Z', range '0' '9']

/-- One label of a host: letters, digits and, inside it, hyphens. -/
def label : Pattern :=
  alt (oneOf alphanumeric)
    (seq (oneOf alphanumeric)
      (seq (many (oneOf (alphanumeric ++ [single '-']))) (oneOf alphanumeric)))

/-- A colon and a port number. -/
def port : Pattern := seq (one ':') (many1 (oneOf [range '0' '9']))

/-- Labels with a dot between each two, and an optional port. -/
def hostName : Pattern :=
  seq label (seq (many (seq (one '.') label)) (optional port))

/-- A word character and up to 127 word characters, dots and hyphens. -/
def tagWord : Pattern :=
  seq (oneOf [word]) (times (oneOf [word, single '.', single '-']) 0 (some 127))

/-- The name of the digest algorithm and at least 32 lowercase letters and digits. -/
def fingerprint : Pattern :=
  seq (literal "sha256:")
    (times (oneOf [range 'a' 'z', range '0' '9']) 32 none)

/-- The rule for one component of a repository. -/
def componentRule : Rule where
  pattern := component
  stated := statedComponent

/-- The rule for a repository or what follows its first component. -/
def pathRule : Rule where
  pattern := path
  stated := statedPath

/-- The rule for a registry host. -/
def hostRule : Rule where
  pattern := hostName
  anchored := true

/-- The rule for a tag. -/
def tagRule : Rule where
  pattern := tagWord
  anchored := true

/-- The rule for a digest. -/
def digestRule : Rule where
  pattern := fingerprint
  anchored := true

/-- Whether a text is one component of a repository. -/
def isComponent (t : Text) : Bool := componentRule.allows t

/-- Whether a text is a path of components. -/
def isPath (t : Text) : Bool := pathRule.allows t

/-- Whether a text is the host of a registry, with or without a port. -/
def isHost (t : Text) : Bool := hostRule.allows t

/-- Whether a text is a tag. -/
def isTag (t : Text) : Bool := tagRule.allows t

/-- Whether a text is a digest. -/
def isDigest (t : Text) : Bool := digestRule.allows t

/-- Whether the first segment of a name is taken for a registry: a host that holds a dot or a colon.
A bare word such as `library` is a host as well, but names a part of the repository. -/
def namesRegistry (segment : Text) : Bool :=
  (segment.contains '.' || segment.contains ':') && isHost segment

end Grammar

end ImageNaming
