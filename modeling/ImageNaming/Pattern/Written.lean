import ImageNaming.Pattern.Basic

/-!
# The written form of a pattern

Messages quote the pattern that a value fails, in the usual notation of regular expressions. A
group is written only where it is needed to keep the parts of a pattern together, and is never a
capturing one.
-/

namespace ImageNaming

namespace ClassItem

/-- An entry as it stands between the brackets of a class. -/
def written : ClassItem → Text
  | single c => if ['\\', ']', '^'].contains c then ['\\', c] else [c]
  | range first last => [first, '-', last]
  | word => "\\w"

end ClassItem

namespace Pattern

/-- The characters that have a meaning of their own outside a class. -/
def metacharacters : Text := "\\.^$*+?()[]\x7b\x7d|"

/-- A character outside a class. -/
def writtenChar (c : Char) : Text := if metacharacters.contains c then ['\\', c] else [c]

/-- The mark of a repetition. -/
def writtenCount (least : Nat) : Option Nat → Text
  | none =>
    if least = 0 then "*" else if least = 1 then "+"
    else "\x7b" ++ Text.ofNat least ++ ",\x7d"
  | some most =>
    if least = 0 && most = 1 then "?"
    else "\x7b" ++ Text.ofNat least ++ "," ++ Text.ofNat most ++ "\x7d"

/-- A written pattern that keeps together under what follows it. -/
def grouped (t : Text) : Text := "(?:" ++ t ++ ")"

/-- The written form of a pattern. -/
def written : Pattern → Text
  | empty => []
  | one c => writtenChar c
  | oneOf items => "[" ++ items.flatMap ClassItem.written ++ "]"
  | seq p q => inSequence p p.written ++ inSequence q q.written
  | alt p q => p.written ++ "|" ++ q.written
  | times p least most => repeated p p.written ++ writtenCount least most
where
  /-- The written form as a part of a concatenation: only an alternation needs a group. -/
  inSequence : Pattern → Text → Text
    | alt .., t => grouped t
    | _, t => t
  /-- The written form under a repetition mark: all but a single place needs a group. -/
  repeated : Pattern → Text → Text
    | one _, t => t
    | oneOf _, t => t
    | _, t => grouped t

end Pattern

end ImageNaming
