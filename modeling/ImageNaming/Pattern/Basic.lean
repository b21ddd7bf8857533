import ImageNaming.Text.Basic

/-!
# Patterns

A pattern describes a set of texts: single characters and character classes, joined by
concatenation, alternation and counted repetition. `Matches` gives the set as an inductive relation;
it always speaks of a whole text, so a pattern needs no anchors and a line end behind a text is
never forgiven.
-/

namespace ImageNaming

/-- One entry of a character class. -/
inductive ClassItem where
  /-- The character itself. -/
  | single (c : Char)
  /-- Every character from the first to the last, both included. -/
  | range (first last : Char)
  /-- The ASCII letters, the ASCII digits and the underscore. -/
  | word
  deriving DecidableEq, Repr

namespace ClassItem

/-- Whether an entry of a class takes in a character. -/
def holds : ClassItem → Char → Bool
  | single c, d => d = c
  | range first last, d => first ≤ d && d ≤ last
  | word, d => d.isAlphanum || d = '_'

end ClassItem

/-- A pattern over texts. -/
inductive Pattern where
  /-- The empty text. -/
  | empty
  /-- One given character. -/
  | one (c : Char)
  /-- One character of a class. -/
  | oneOf (items : List ClassItem)
  /-- A text of the first pattern followed by a text of the second. -/
  | seq (first second : Pattern)
  /-- A text of either pattern. -/
  | alt (left right : Pattern)
  /-- At least `least` and, where a bound is given, at most `most` texts of a pattern in a row. -/
  | times (body : Pattern) (least : Nat) (most : Option Nat)
  deriving DecidableEq, Repr

namespace Pattern

/-- Any number of texts of a pattern in a row. -/
def many (body : Pattern) : Pattern := times body 0 none

/-- One or more texts of a pattern in a row. -/
def many1 (body : Pattern) : Pattern := times body 1 none

/-- A text of a pattern, or nothing. -/
def optional (body : Pattern) : Pattern := times body 0 (some 1)

/-- The characters of `t` one after the other. -/
def literal : Text → Pattern
  | [] => empty
  | [c] => one c
  | c :: rest => seq (one c) (literal rest)

/-- `Matches p t` says that the whole text `t` is one of the texts that `p` describes. -/
inductive Matches : Pattern → Text → Prop where
  | empty : Matches .empty []
  | one (c : Char) : Matches (.one c) [c]
  | oneOf {items : List ClassItem} {item : ClassItem} {c : Char} (mem : item ∈ items)
      (holds : item.holds c = true) : Matches (.oneOf items) [c]
  | seq {p q : Pattern} {s t : Text} (first : Matches p s) (second : Matches q t) :
      Matches (.seq p q) (s ++ t)
  | altLeft {p q : Pattern} {t : Text} (left : Matches p t) : Matches (.alt p q) t
  | altRight {p q : Pattern} {t : Text} (right : Matches q t) : Matches (.alt p q) t
  | times {p : Pattern} {least : Nat} {most : Option Nat} (pieces : List Text)
      (each : ∀ piece ∈ pieces, Matches p piece) (enough : least ≤ pieces.length)
      (bounded : ∀ m ∈ most, pieces.length ≤ m) : Matches (.times p least most) pieces.flatten

end Pattern

end ImageNaming
