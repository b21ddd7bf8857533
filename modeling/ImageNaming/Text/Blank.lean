import ImageNaming.Text.Basic

/-!
# Blank characters

A blank is a character that surrounding-whitespace rules drop: the ASCII separators and line ends,
the four information separators, the next-line control and the space characters of Unicode. A
zero-width space, a word joiner and a byte-order mark are not blanks.
-/

namespace ImageNaming.Text

/-- The code points of the blanks, as closed ranges in ascending order. -/
def blankRanges : List (Nat × Nat) :=
  [(0x09, 0x0D), (0x1C, 0x20), (0x85, 0x85), (0xA0, 0xA0), (0x1680, 0x1680), (0x2000, 0x200A),
   (0x2028, 0x2029), (0x202F, 0x202F), (0x205F, 0x205F), (0x3000, 0x3000)]

/-- Whether a character is a blank. -/
def isBlank (c : Char) : Bool :=
  blankRanges.any fun (first, last) => first ≤ c.toNat && c.toNat ≤ last

/-- A text without the blanks at its start. -/
def trimStart (t : Text) : Text := t.dropWhile isBlank

/-- A text without the blanks at its end. -/
def trimEnd (t : Text) : Text := (t.reverse.dropWhile isBlank).reverse

/-- A text without the blanks at its two ends. -/
def trim (t : Text) : Text := trimEnd (trimStart t)

/-- Whether a text holds a character other than blanks. -/
def hasInk (t : Text) : Bool := t.any fun c => !isBlank c

/-- Whether a text is given and holds a character other than blanks. -/
def isInked : Option Text → Bool
  | none => false
  | some t => hasInk t

@[simp]
theorem hasInk_nil : hasInk [] = false := rfl

@[simp]
theorem isInked_none : isInked none = false := rfl

@[simp]
theorem isInked_some (t : Text) : isInked (some t) = hasInk t := rfl

end ImageNaming.Text
