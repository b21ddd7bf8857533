import ImageNaming.Text.Basic

/-!
# Lines

Stored texts may end a line by a line feed, by a carriage return or by the two together. A reader
first turns every line end into a single line feed and then cuts the text behind each of them; no
other control or separator ends a line.
-/

namespace ImageNaming.Text

/-- A text in which every line end is a single line feed. -/
def unifyLineEnds : Text → Text
  | [] => []
  | '\r' :: '\n' :: rest => '\n' :: unifyLineEnds rest
  | c :: rest => (if c = '\r' then '\n' else c) :: unifyLineEnds rest

/-- The lines of a text, without their line ends. A text that ends in a line end has one more,
empty line behind it. -/
def lines (t : Text) : List Text := piecesBetween '\n' (unifyLineEnds t)

@[simp]
theorem lines_nil : lines [] = [[]] := rfl

end ImageNaming.Text
